import DmaCamera.IcapAnswers
import DmaCamera.BitstreamIoctl
set_option autoImplicit false

namespace DmaCamera
open Calls Readers

variable {env : BitEnv} {s t : BitDev}

theorem bodyChunksFuel_full (fuel remaining : Nat) (h : remaining ≤ fuel) :
    FullChunks (bodyChunksFuel fuel remaining) := by
  induction fuel generalizing remaining with
  | zero => trivial
  | succ fuel ih =>
    rw [bodyChunksFuel]
    split
    · trivial
    · rename_i hpos
      rw [dmaHwicapBitfileBufferSize]
      refine ⟨?_,ih _ (by omega)⟩
      by_cases hlt : remaining ≤ 1024
      · left
        rw [Nat.min_eq_left hlt, Nat.sub_self]
        cases fuel <;> rfl
      · right
        exact Nat.min_eq_right (by omega)

theorem bodyChunks_full (n : Nat) : FullChunks (bodyChunks n) := bodyChunksFuel_full n n (Nat.le_refl n)

theorem bodyChunksFuel_words (fuel remaining : Nat) (h : remaining ≤ fuel) :
    ((bodyChunksFuel fuel remaining).map (·/4)).sum = remaining/4 := by
  induction fuel generalizing remaining with
  | zero =>
    obtain rfl : remaining = 0 := by omega
    rfl
  | succ fuel ih =>
    rw [bodyChunksFuel]
    split
    · rename_i hzero
      rw [hzero]
      rfl
    · rw [dmaHwicapBitfileBufferSize, List.map_cons, List.sum_cons, ih _ (by omega)]
      omega

theorem takes_words {chunks : List Nat} {time : Nat} (h : (env.takes chunks time).all = true) :
    (env.takes chunks time).words = (chunks.map (·/4)).sum := by
  induction chunks generalizing time with
  | nil => rfl
  | cons bytes rest ih =>
    rw [BitEnv.takes] at h ⊢
    dsimp only at h ⊢
    split at h
    · rename_i hall
      rw [if_pos hall]
      dsimp only at h ⊢
      rw [ih h, rounds_words (Nat.le_refl _) hall, List.map_cons, List.sum_cons]
    · rename_i hall
      exact absurd h hall

theorem takes_body_words {n time : Nat} (h : (env.takes (bodyChunks n) time).all = true) :
    (env.takes (bodyChunks n) time).words = n/4 :=
  (takes_words h).trans (bodyChunksFuel_words n n (Nat.le_refl n))

def bufferStream (buffer : List Byte) (headerLength : Nat) (k : Nat) : Option U32 :=
  wordAt buffer (headerLength+4*k)

def BitEnv.userStream (env : BitEnv) (bitBuf : U64) (k : Nat) : Option U32 :=
  some (env.userWord (bitBuf+BitVec.ofNat 64 (4*k)))

theorem bufferChunk_pieces (buffer : List Byte) (headerLength : Nat) :
    Pieces (bufferChunk buffer headerLength) (fun _ => true) (bufferStream buffer headerLength) := by
  intro c
  rw [if_pos rfl, bufferChunk]
  congr 1
  funext i
  rw [bufferStream, dmaHwicapBitfileBufferSize]
  congr 1
  omega

theorem userChunk_pieces (bitBuf : U64) :
    Pieces (userChunk env bitBuf) env.copyChunk (env.userStream bitBuf) := by
  intro c
  rw [userChunk]
  split
  · congr 1
    funext i
    rw [BitEnv.userStream, dmaHwicapBitfileBufferSize]
    congr 4
    omega
  · rfl

theorem copiedChunks_all (c : Nat) (chunks : List Nat) :
    copiedChunks (fun _ => true) c chunks = chunks := by
  induction chunks generalizing c with
  | nil => rfl
  | cons bytes rest ih => rw [copiedChunks, if_pos rfl, ih]

def BitEnv.verdict (env : BitEnv) (bodyEnd : BodyEnd) (time : Nat) : Int × Nat :=
  match bodyEnd with
  | .fault => (-eFault,time)
  | .refused => (0,time)
  | .done =>
    ((if (env.polls xhwicapSr srReady 10 time).1 = true then 0 else -eIo),
      (env.polls xhwicapSr srReady 10 time).2)

structure Judged (env : BitEnv) (bodyEnd : BodyEnd) (s : BitDev) (rc : Int) (t : BitDev) : Prop where
  verdict : (rc,t.time) = env.verdict bodyEnd s.time
  fifo : t.fifo = s.fifo
  rest : t = { s with reads := t.reads, writes := t.writes, time := t.time }
  reads : ∃ rs, t.reads = s.reads ++ rs ∧
    ((∃ v, (xhwicapSr,v) ∈ rs ∧ srReady v = true) ↔ bodyEnd = .done ∧ rc = 0)

theorem bodyVerdict_ends (bodyEnd : BodyEnd) :
    Ends (bodyVerdict env bodyEnd) s (Judged env bodyEnd s) fun _ _ => False := by
  cases bodyEnd with
  | fault => exact ⟨rfl,rfl,rfl,[],(List.append_nil _).symm,by simp⟩
  | refused => exact ⟨rfl,rfl,rfl,[],(List.append_nil _).symm,by simp⟩
  | done =>
    rw [bodyVerdict, ends_bind, waitForDone]
    refine (pollRegister_ends xhwicapSr srReady 10).mono (fun b t h => ?_) fun _ _ h => h
    obtain ⟨hpolls,hwrites,hrest,rs,hrs,hoff,hiff⟩ := h
    have hready : (∃ v, (xhwicapSr,v) ∈ rs ∧ srReady v = true) ↔ b = true := by
      rw [hiff]
      constructor
      · rintro ⟨v,hv,hready⟩
        exact ⟨_,hv,hready⟩
      · rintro ⟨r,hr,hready⟩
        exact ⟨r.2,by rw [← hoff r hr]; exact hr,hready⟩
    have hfifo : t.fifo = s.fifo := by rw [BitDev.fifo, hwrites, BitDev.fifo]
    rw [ends_ite]
    cases b with
    | true =>
      refine ⟨?_,hfifo,hrest,rs,hrs,by simpa using hready⟩
      rw [BitEnv.verdict, ← hpolls]
      rfl
    | false =>
      refine ⟨?_,hfifo,hrest,rs,hrs,?_⟩
      · rw [BitEnv.verdict, ← hpolls]
        rfl
      · rw [hready]
        decide

def BitEnv.clears (env : BitEnv) (clearBitstream : Option (List Byte)) (length : U32) (time : Nat) :
    Int × Nat :=
  match clearBitstream with
  | none => (0,time)
  | some buffer =>
    match bitstreamParseHeader env.kmallocClear buffer with
    | .error _ => (-eInval,time)
    | .ok bitHeader =>
      if bitstreamFits bitHeader (length.setWidth 64) = true then
        let answer := env.takes (bodyChunks bitHeader.bitstreamLength.toNat) time
        env.verdict (if answer.all = true then .done else .refused) answer.time
      else (-eInval,time)

/-- How a clear bitstream makes the call die: it has a length of zero, its header is not read within
the memory, or a word is taken that is not in the memory. -/
inductive ClearDies (env : BitEnv) (buffer : List Byte) (length : U32) (time : Nat) : Prop where
  | noLength : length = 0 → ClearDies env buffer length time
  | header (stop : Stop HeaderFault) : bitstreamParseHeader env.kmallocClear buffer = .error stop →
      stop ≠ .refused .invalid → ClearDies env buffer length time
  | body (bitHeader : XHwIcapBitHeader) :
      bitstreamParseHeader env.kmallocClear buffer = .ok bitHeader →
      bitstreamFits bitHeader (length.setWidth 64) = true →
      Lacks (bufferStream buffer bitHeader.headerLength.toNat) 0
        (env.takes (bodyChunks bitHeader.bitstreamLength.toNat) time).words →
      ClearDies env buffer length time

structure Spares (s t : BitDev) : Prop where
  gate : t.axiGateFrozen = s.axiGateFrozen
  control : t.control = s.control

theorem Spares.refl (s : BitDev) : Spares s s := ⟨rfl,rfl⟩

theorem Spares.trans {u : BitDev} (h : Spares s t) (h' : Spares t u) : Spares s u :=
  ⟨h'.gate.trans h.gate,h'.control.trans h.control⟩

theorem Quiet.spares (h : Quiet s t) : Spares s t := by
  rw [h.rest]
  exact ⟨rfl,rfl⟩

theorem Judged.spares {bodyEnd : BodyEnd} {rc : Int} (h : Judged env bodyEnd s rc t) : Spares s t := by
  rw [h.rest]
  exact ⟨rfl,rfl⟩

theorem parseHeader_ends (kmalloc : Byte → Bool) (buffer : List Byte) :
    Ends (parseHeader kmalloc buffer) s
      (fun header t => t = s ∧
        (∀ bitHeader, header = some bitHeader → bitstreamParseHeader kmalloc buffer = .ok bitHeader) ∧
        (header = none → bitstreamParseHeader kmalloc buffer = .error (.refused .invalid)))
      (fun e t => t = s ∧ ∃ stop, e = .header stop ∧
        bitstreamParseHeader kmalloc buffer = .error stop ∧ stop ≠ .refused .invalid) := by
  unfold parseHeader
  split
  · rename_i bitHeader h
    refine ⟨rfl,?_,by simp⟩
    rintro f ⟨⟩
    exact h
  · rename_i h
    exact ⟨rfl,by simp,fun _ => h⟩
  · rename_i stop hne h
    exact ⟨rfl,stop,rfl,h,hne⟩

theorem ClearDies.invalid {buffer : List Byte} {length : U32} {t : Nat} (hlength : length ≠ 0)
    (hparse : bitstreamParseHeader env.kmallocClear buffer = .error (.refused .invalid)) :
    ¬ ClearDies env buffer length t := by
  rintro (h | ⟨stop,h,hstop⟩ | ⟨f,h,_⟩)
  · exact hlength h
  · rw [hparse] at h
    cases h
    exact hstop rfl
  · rw [hparse] at h
    cases h

/-- Behind its header a clear bitstream dies by the words it lacks. -/
theorem ClearDies.parsed {buffer : List Byte} {length : U32} {t : Nat} {bitHeader : XHwIcapBitHeader}
    (hlength : length ≠ 0)
    (hparse : bitstreamParseHeader env.kmallocClear buffer = .ok bitHeader) :
    ClearDies env buffer length t ↔ bitstreamFits bitHeader (length.setWidth 64) = true ∧
      Lacks (bufferStream buffer bitHeader.headerLength.toNat) 0
        (env.takes (bodyChunks bitHeader.bitstreamLength.toNat) t).words := by
  constructor
  · rintro (h | ⟨stop,h,hstop⟩ | ⟨f,h,hfits,hlacks⟩)
    · exact absurd h hlength
    · rw [hparse] at h
      cases h
    · rw [hparse] at h
      cases h
      exact ⟨hfits,hlacks⟩
  · rintro ⟨hfits,hlacks⟩
    exact .body bitHeader hparse hfits hlacks

theorem bitstreamIcap_ends (buffer : List Byte) (length : U32) :
    Ends (bitstreamIcap env buffer length) s
      (fun rc t => ¬ ClearDies env buffer length s.time ∧
        (rc,t.time) = env.clears (some buffer) length s.time ∧ Spares s t)
      (fun e t => ClearDies env buffer length s.time ∧ Spares s t ∧
        e ≠ .gateFrozen ∧ e ≠ .gateNotFrozen) := by
  rw [bitstreamIcap, ends_ite]
  split
  · rename_i hlength
    exact ⟨.noLength hlength,Spares.refl s,by decide,by decide⟩
  rename_i hlength
  rw [ends_bind]
  refine (parseHeader_ends env.kmallocClear buffer).mono (fun header t h => ?_) fun e t h => ?_
  swap
  · obtain ⟨rfl,stop,rfl,hparse,hstop⟩ := h
    exact ⟨.header stop hparse hstop,Spares.refl _,by simp,by simp⟩
  obtain ⟨rfl,hsome,hnone⟩ := h
  cases header with
  | none =>
    have hparse := hnone rfl
    refine ⟨ClearDies.invalid hlength hparse,?_,Spares.refl _⟩
    rw [BitEnv.clears, hparse]
  | some bitHeader =>
    have hparse := hsome bitHeader rfl
    have hclears : env.clears (some buffer) length t.time =
        if bitstreamFits bitHeader (length.setWidth 64) = true then
          env.verdict (if (env.takes (bodyChunks bitHeader.bitstreamLength.toNat) t.time).all = true
            then .done else .refused) (env.takes (bodyChunks bitHeader.bitstreamLength.toNat) t.time).time
        else (-eInval,t.time) := by
      rw [BitEnv.clears, hparse]
    rw [ClearDies.parsed hlength hparse, hclears]
    dsimp only
    rw [ends_ite]
    split
    · rename_i hfits
      rw [ends_bind]
      have hbody := @icapBody_ends env t _ _ _ (bufferChunk_pieces buffer bitHeader.headerLength.toNat) 0
        _ (bodyChunks_full bitHeader.bitstreamLength.toNat)
      rw [copiedChunks_all] at hbody
      refine hbody.mono (fun bodyEnd u h => ?_) fun e u h => ?_
      · obtain ⟨hoffered,htime,rfl⟩ := h
        have hend : endOf (fun _ => true) 0 (bodyChunks bitHeader.bitstreamLength.toNat)
            (env.takes (bodyChunks bitHeader.bitstreamLength.toNat) t.time).all =
            if (env.takes (bodyChunks bitHeader.bitstreamLength.toNat) t.time).all = true then .done
            else .refused := by
          rw [endOf, copiedChunks_all, if_pos rfl]
          cases (env.takes (bodyChunks bitHeader.bitstreamLength.toNat) t.time).all <;> rfl
        rw [hend]
        refine (bodyVerdict_ends _).mono (fun rc v h => ?_) fun _ _ h => h.elim
        refine ⟨fun hlacks => hoffered.there hlacks.2,?_,hoffered.quiet.spares.trans h.spares⟩
        rw [h.verdict, htime]
      · rw [h.fault]
        exact ⟨⟨hfits,h.lacks⟩,h.quiet.spares,by decide,by decide⟩
    · rename_i hfits
      exact ⟨fun h => hfits h.1,rfl,Spares.refl t⟩

theorem bitstreamClearIcap_ends :
    Ends (bitstreamClearIcap env) s
      (fun rc t => (∀ buffer, s.clearBitstream = some buffer →
          ¬ ClearDies env buffer s.clearBitstreamLength s.time) ∧
        (rc,t.time) = env.clears s.clearBitstream s.clearBitstreamLength s.time ∧ Spares s t)
      (fun e t => (∃ buffer, s.clearBitstream = some buffer ∧
          ClearDies env buffer s.clearBitstreamLength s.time) ∧ Spares s t ∧
        e ≠ .gateFrozen ∧ e ≠ .gateNotFrozen) := by
  rw [bitstreamClearIcap, ends_bind, ends_get]
  cases hstash : s.clearBitstream with
  | none => exact ⟨by simp,rfl,Spares.refl s⟩
  | some buffer =>
    dsimp only
    rw [ends_bind]
    refine (bitstreamIcap_ends buffer s.clearBitstreamLength).mono (fun rc t h => ?_) fun e t h => ?_
    · rw [ends_bind, ends_modify, ends_pure]
      refine ⟨?_,h.2.1,h.2.2.gate,h.2.2.control⟩
      rintro b ⟨⟩
      exact h.1
    · exact ⟨⟨buffer,rfl,h.1⟩,h.2⟩

structure Reaches (env : BitEnv) (bitBuf length : U64) (bitHeader : XHwIcapBitHeader) : Prop where
  kmalloc : env.kmallocBuffer = true
  copy : env.copyHeader = true
  parse : bitstreamParseHeader env.kmallocString
    (env.userBytes bitBuf dmaHwicapBitfileBufferSize) = .ok bitHeader
  fits : bitstreamFits bitHeader length = true

structure PrimaryDies (env : BitEnv) (bitBuf : U64) : Prop where
  kmalloc : env.kmallocBuffer = true
  copy : env.copyHeader = true
  parse : ∃ stop, bitstreamParseHeader env.kmallocString
    (env.userBytes bitBuf dmaHwicapBitfileBufferSize) = .error stop ∧ stop ≠ .refused .invalid

theorem Reaches.lives {bitBuf length : U64} {f : XHwIcapBitHeader}
    (h : Reaches env bitBuf length f) : ¬ PrimaryDies env bitBuf := by
  intro hdies
  obtain ⟨stop,hstop,_⟩ := hdies.parse
  rw [h.parse] at hstop
  cases hstop

theorem Reaches.unique {bitBuf length : U64} {f g : XHwIcapBitHeader}
    (h : Reaches env bitBuf length f) (h' : Reaches env bitBuf length g) : f = g := by
  have hparse := h.parse
  rw [h'.parse] at hparse
  cases hparse
  rfl

def BitEnv.copied (env : BitEnv) (bitHeader : XHwIcapBitHeader) : List Nat :=
  copiedChunks env.copyChunk 0 (bodyChunks bitHeader.bitstreamLength.toNat)

def BitEnv.primaryEnd (env : BitEnv) (bitHeader : XHwIcapBitHeader) (time : Nat) : BodyEnd :=
  endOf env.copyChunk 0 (bodyChunks bitHeader.bitstreamLength.toNat)
    (env.takes (env.copied bitHeader) time).all

def behindHeader (env : BitEnv) (bitBuf length : U64) (body : XHwIcapBitHeader → BitCall Int) :
    BitCall Int :=
  if env.kmallocBuffer = false then pure (-eNoMem)
  else if env.copyHeader = false then pure (-eFault)
  else do
    let header ← parseHeader env.kmallocString (env.userBytes bitBuf dmaHwicapBitfileBufferSize)
    match header with
    | none => pure (-eInval)
    | some bitHeader =>
      if bitstreamFits bitHeader length = true then body bitHeader else pure (-eInval)

/-- It ends with an error before the body, or dies in the parser, or comes to the body. -/
theorem behindHeader_ends {bitBuf length : U64} {body : XHwIcapBitHeader → BitCall Int}
    {Q : Int → BitDev → Prop} {R : BitFault → BitDev → Prop}
    (refused : ∀ rc, rc ≠ 0 → ¬ PrimaryDies env bitBuf → (∀ f, ¬ Reaches env bitBuf length f) → Q rc s)
    (dies : ∀ e, PrimaryDies env bitBuf → e ≠ .gateFrozen → e ≠ .gateNotFrozen → R e s)
    (reaches : ∀ f, Reaches env bitBuf length f → Ends (body f) s Q R) :
    Ends (behindHeader env bitBuf length body) s Q R := by
  unfold behindHeader
  rw [ends_ite]
  split
  · rename_i hkmalloc
    refine refused _ (by decide) (fun h => ?_) fun f h => ?_
    · rw [h.kmalloc] at hkmalloc
      cases hkmalloc
    · rw [h.kmalloc] at hkmalloc
      cases hkmalloc
  rename_i hkmalloc
  rw [ends_ite]
  split
  · rename_i hcopy
    refine refused _ (by decide) (fun h => ?_) fun f h => ?_
    · rw [h.copy] at hcopy
      cases hcopy
    · rw [h.copy] at hcopy
      cases hcopy
  rename_i hcopy
  rw [Bool.not_eq_false] at hkmalloc hcopy
  rw [ends_bind]
  have hheader := @parseHeader_ends s env.kmallocString
    (env.userBytes bitBuf dmaHwicapBitfileBufferSize)
  refine hheader.mono (fun header t h => ?_) fun e t h => ?_
  swap
  · obtain ⟨rfl,stop,rfl,hparse,hstop⟩ := h
    exact dies _ ⟨hkmalloc,hcopy,stop,hparse,hstop⟩ (by simp) (by simp)
  obtain ⟨rfl,hsome,hnone⟩ := h
  cases header with
  | none =>
    have hparse := hnone rfl
    refine refused _ (by decide) (fun h => ?_) fun f h => ?_
    · obtain ⟨stop,hstop,hne⟩ := h.parse
      rw [hparse] at hstop
      cases hstop
      exact hne rfl
    · have hf := h.parse
      rw [hparse] at hf
      cases hf
  | some bitHeader =>
    have hparse := hsome bitHeader rfl
    dsimp only
    rw [ends_ite]
    split
    · rename_i hfits
      exact reaches bitHeader ⟨hkmalloc,hcopy,hparse,hfits⟩
    · rename_i hfits
      refine refused _ (by decide) (fun h => ?_) fun f h => ?_
      · obtain ⟨stop,hstop,_⟩ := h.parse
        rw [hparse] at hstop
        cases hstop
      · have hf := h.parse
        rw [hparse] at hf
        cases hf
        exact hfits h.fits

structure Loaded (env : BitEnv) (bitBuf : U64) (bitHeader : XHwIcapBitHeader) (s : BitDev) (rc : Int)
    (t : BitDev) : Prop where
  via : ∃ u, Offered (env.userStream (bitBuf+bitHeader.headerLength.setWidth 64)) 0
      (env.takes (env.copied bitHeader) s.time).words s u ∧
    u.time = (env.takes (env.copied bitHeader) s.time).time ∧
    Judged env (env.primaryEnd bitHeader s.time) u rc t

theorem icapPrimary_ends (bitBuf length : U64) :
    Ends (icapPrimary env bitBuf length) s
      (fun rc t => ¬ PrimaryDies env bitBuf ∧
        ((∃ f, Reaches env bitBuf length f ∧ Loaded env bitBuf f s rc t) ∨
          rc ≠ 0 ∧ t = s ∧ ∀ f, ¬ Reaches env bitBuf length f))
      (fun e t => PrimaryDies env bitBuf ∧ t = s ∧ e ≠ .gateFrozen ∧ e ≠ .gateNotFrozen) := by
  refine behindHeader_ends (fun rc hrc hlives hnone => ⟨hlives,Or.inr ⟨hrc,rfl,hnone⟩⟩)
    (fun e hdies hfrozen hnot => ⟨hdies,rfl,hfrozen,hnot⟩) fun f hf => ?_
  rw [ends_bind]
  refine (icapBody_ends (userChunk_pieces _) 0 _ (bodyChunks_full _)).mono
    (fun bodyEnd u h => ?_) fun e u h => ?_
  · obtain ⟨hoffered,htime,rfl⟩ := h
    refine (bodyVerdict_ends _).mono (fun rc v hv => ?_) fun _ _ h => h.elim
    exact ⟨hf.lives,Or.inl ⟨f,hf,⟨u,hoffered,htime,hv⟩⟩⟩
  · obtain ⟨k,_,hk⟩ := h.lacks
    cases hk

/-- The gate was moved, and no status of the ICAP was read. -/
structure GateMoved (frozen : Bool) (s t : BitDev) : Prop where
  rest : t = { s with
    axiGateFrozen := frozen, reads := t.reads, writes := t.writes, time := t.time }
  fifo : t.fifo = s.fifo
  reads : ∃ rs, t.reads = s.reads ++ rs ∧ ∀ r ∈ rs, r.1 ≠ xhwicapSr

theorem Quiet.gateMoved (frozen : Bool) (h : Quiet s t) (hfifo : t.fifo = s.fifo) :
    GateMoved frozen s { t with axiGateFrozen := frozen } := by
  refine ⟨?_,hfifo,h.reads⟩
  rw [h.rest]

theorem GateMoved.control {frozen : Bool} (h : GateMoved frozen s t) : t.control = s.control := by
  rw [h.rest]

theorem GateMoved.gate {frozen : Bool} (h : GateMoved frozen s t) : t.axiGateFrozen = frozen := by
  rw [h.rest]

theorem GateMoved.stash {frozen : Bool} (h : GateMoved frozen s t) :
    t.clearBitstream = s.clearBitstream ∧ t.clearBitstreamLength = s.clearBitstreamLength := by
  rw [h.rest]
  exact ⟨rfl,rfl⟩

def BitDev.pulsed (s : BitDev) (env : BitEnv) (w : U32) : BitDev :=
  (s.readAt env axiGateOffsetRead).writeAt axiGateOffset w

theorem pulsed_quiet (w : U32) : Quiet s (s.pulsed env w) ∧ (s.pulsed env w).fifo = s.fifo := by
  refine ⟨(Quiet.readAt (by decide)).trans (Quiet.writeAt _ _),?_⟩
  rw [BitDev.pulsed, writeAt_fifo, if_neg (by decide), List.append_nil, readAt_fifo]

theorem freezeAXIGate_ends : Ends (freezeAXIGate env) s
    (fun _ t => s.axiGateFrozen = false ∧ GateMoved true s t ∧ t.time = s.time+2)
    (fun e t => s.axiGateFrozen = true ∧ e = .gateFrozen ∧ t = s) := by
  rw [freezeAXIGate, ends_bind, ends_get, ends_ite]
  split
  · rename_i hfrozen
    exact ⟨hfrozen,rfl,rfl⟩
  · rename_i hfrozen
    obtain ⟨hquiet,hfifo⟩ := @pulsed_quiet env s 0
    have hlast : Quiet s ((s.pulsed env 0).readAt env axiGateOffsetRead) :=
      hquiet.trans (Quiet.readAt (by decide))
    simp only [ends_bind, ends_readRegister, ends_writeRegister, ends_modify]
    exact ⟨by simpa using hfrozen,hlast.gateMoved true hfifo,rfl⟩

theorem freeAXIGate_ends : Ends (freeAXIGate env) s
    (fun _ t => s.axiGateFrozen = true ∧ GateMoved false s t)
    (fun e t => s.axiGateFrozen = false ∧ e = .gateNotFrozen ∧ t = s) := by
  rw [freeAXIGate, ends_bind, ends_get, ends_ite]
  split
  · rename_i hfree
    exact ⟨hfree,rfl,rfl⟩
  · rename_i hfree
    obtain ⟨hquiet₁,hfifo₁⟩ := @pulsed_quiet env s 2
    obtain ⟨hquiet₂,hfifo₂⟩ := @pulsed_quiet env (s.pulsed env 2) 0
    obtain ⟨hquiet₃,hfifo₃⟩ := @pulsed_quiet env ((s.pulsed env 2).pulsed env 0) 2
    obtain ⟨hquiet₄,hfifo₄⟩ := @pulsed_quiet env (((s.pulsed env 2).pulsed env 0).pulsed env 2) 3
    have hlast : Quiet s (((((s.pulsed env 2).pulsed env 0).pulsed env 2).pulsed env 3).readAt env
        axiGateOffsetRead) :=
      (((hquiet₁.trans hquiet₂).trans hquiet₃).trans hquiet₄).trans (Quiet.readAt (by decide))
    have hfifo := ((hfifo₄.trans hfifo₃).trans hfifo₂).trans hfifo₁
    simp only [pulseGate, ends_bind, ends_readRegister, ends_writeRegister, ends_modify]
    exact ⟨by simpa using hfree,hlast.gateMoved false hfifo⟩

def IcapDies (env : BitEnv) (bitBuf : U64) (s : BitDev) : Prop :=
  (∃ buffer, s.clearBitstream = some buffer ∧
    ClearDies env buffer s.clearBitstreamLength (s.time+2)) ∨
  (env.clears s.clearBitstream s.clearBitstreamLength (s.time+2)).1 = 0 ∧ PrimaryDies env bitBuf

def freezeAndClear (env : BitEnv) : BitCall Int := freezeAXIGate env >>= fun _ => bitstreamClearIcap env

/-- The gate is frozen, the clear bitstream comes first, and the primary one where that goes well. -/
structure IcapDone (env : BitEnv) (bitBuf length : U64) (s : BitDev) (rc : Int) (t : BitDev) :
    Prop where
  unfrozen : s.axiGateFrozen = false
  lives : ¬ IcapDies env bitBuf s
  control : t.control = s.control
  steps : ∃ cleared s₁ t₁, (freezeAndClear env).outcome s = (.ok cleared,s₁) ∧
    (cleared,s₁.time) = env.clears s.clearBitstream s.clearBitstreamLength (s.time+2) ∧
    GateMoved false t₁ t ∧
    if cleared ≠ 0 then rc = cleared ∧ t₁ = s₁
    else (∃ f, Reaches env bitBuf length f ∧ Loaded env bitBuf f s₁ rc t₁) ∨
      rc ≠ 0 ∧ t₁ = s₁ ∧ ∀ f, ¬ Reaches env bitBuf length f

structure IcapDied (env : BitEnv) (bitBuf : U64) (s : BitDev) (e : BitFault) (t : BitDev) : Prop where
  frozen : t.axiGateFrozen = true
  control : t.control = s.control
  fault : if s.axiGateFrozen = true then e = .gateFrozen
    else IcapDies env bitBuf s ∧ e ≠ .gateFrozen ∧ e ≠ .gateNotFrozen

theorem freezeAndClear_ends (bitBuf : U64) : Ends (freezeAndClear env) s
    (fun cleared t => s.axiGateFrozen = false ∧ t.axiGateFrozen = true ∧ t.control = s.control ∧
      (cleared,t.time) = env.clears s.clearBitstream s.clearBitstreamLength (s.time+2) ∧
      ∀ buffer, s.clearBitstream = some buffer →
        ¬ ClearDies env buffer s.clearBitstreamLength (s.time+2))
    (IcapDied env bitBuf s) := by
  rw [freezeAndClear, ends_bind]
  refine freezeAXIGate_ends.mono (fun _ t h => ?_) fun e t h => ?_
  · obtain ⟨hunfrozen,hmoved,htime⟩ := h
    obtain ⟨hstash,hlength⟩ := hmoved.stash
    refine bitstreamClearIcap_ends.mono (fun cleared u h => ?_) fun e u h => ?_
    · obtain ⟨hlives,hclears,hspares⟩ := h
      rw [hstash, hlength, htime] at *
      exact ⟨hunfrozen,hspares.gate.trans hmoved.gate,hspares.control.trans hmoved.control,
        hclears,hlives⟩
    · obtain ⟨hdies,hspares,hne⟩ := h
      rw [hstash, hlength, htime] at hdies
      refine ⟨hspares.gate.trans hmoved.gate,hspares.control.trans hmoved.control,?_⟩
      rw [if_neg (by simp [hunfrozen])]
      exact ⟨Or.inl hdies,hne⟩
  · obtain ⟨hfrozen,rfl,rfl⟩ := h
    exact ⟨hfrozen,rfl,by rw [if_pos hfrozen]⟩

theorem Loaded.spares {bitBuf : U64} {f : XHwIcapBitHeader} {rc : Int}
    (h : Loaded env bitBuf f s rc t) : Spares s t := by
  obtain ⟨u,hoffered,_,hjudged⟩ := h.via
  exact hoffered.quiet.spares.trans hjudged.spares

theorem bitstreamIoctlIcap_ends (bitBuf length : U64) : Ends (bitstreamIoctlIcap env bitBuf length) s
    (IcapDone env bitBuf length s) (IcapDied env bitBuf s) := by
  have hsplit : bitstreamIoctlIcap env bitBuf length = freezeAndClear env >>= fun cleared =>
      if cleared ≠ 0 then pure cleared >>= fun err => freeAXIGate env >>= fun _ => pure err
      else icapPrimary env bitBuf length >>= fun err => freeAXIGate env >>= fun _ => pure err := by
    rw [freezeAndClear, bind_assoc]
    rfl
  rw [hsplit, ends_bind]
  refine ((freezeAndClear_ends bitBuf).and (ends_outcome _ s)).mono (fun cleared s₁ h => ?_)
    fun e t h => h.1
  obtain ⟨⟨hunfrozen,hfrozen,hcontrol,hclears,hlives⟩,hrun⟩ := h
  -- freeing the gate ends every way through the download
  have hfree {rc : Int} {t₁ : BitDev} (hspares : Spares s₁ t₁)
      (hdies : cleared = 0 → ¬ PrimaryDies env bitBuf)
      (hstep : if cleared ≠ 0 then rc = cleared ∧ t₁ = s₁
        else (∃ f, Reaches env bitBuf length f ∧ Loaded env bitBuf f s₁ rc t₁) ∨
          rc ≠ 0 ∧ t₁ = s₁ ∧ ∀ f, ¬ Reaches env bitBuf length f) :
      Ends (freeAXIGate env >>= fun _ => (pure rc : BitCall Int)) t₁
        (IcapDone env bitBuf length s) (IcapDied env bitBuf s) := by
    have hgate : t₁.axiGateFrozen = true := hspares.gate.trans hfrozen
    rw [ends_bind]
    refine freeAXIGate_ends.mono (fun _ t h => ?_) fun e t h => ?_
    · refine ⟨hunfrozen,?_,h.2.control.trans (hspares.control.trans hcontrol),cleared,s₁,t₁,hrun,
        hclears,h.2,hstep⟩
      rintro (⟨buffer,hbuffer,hdies'⟩ | ⟨hzero,hdies'⟩)
      · exact hlives buffer hbuffer hdies'
      · rw [← hclears] at hzero
        exact hdies hzero hdies'
    · rw [h.1] at hgate
      cases hgate
  rw [ends_ite]
  split
  · rename_i hne
    rw [ends_bind]
    exact hfree (Spares.refl s₁) (fun hzero => absurd hzero hne) (by rw [if_pos hne]; exact ⟨rfl,rfl⟩)
  · rename_i hzero
    rw [not_not] at hzero
    rw [ends_bind]
    refine (icapPrimary_ends bitBuf length).mono (fun rc t₁ h => ?_) fun e t₁ h => ?_
    · refine hfree ?_ (fun _ => h.1) (by rw [if_neg (not_not.mpr hzero)]; exact h.2)
      rcases h.2 with ⟨f,_,hloaded⟩ | ⟨_,rfl,_⟩
      · exact hloaded.spares
      · exact Spares.refl _
    · obtain ⟨hdies,rfl,hne⟩ := h
      refine ⟨hfrozen,hcontrol,?_⟩
      rw [if_neg (by simp [hunfrozen])]
      exact ⟨Or.inr ⟨by rw [← hclears]; exact hzero,hdies⟩,hne⟩

end DmaCamera
