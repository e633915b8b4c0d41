import DmaCamera.BootFirmware
import DmaCamera.Library.Runs
set_option autoImplicit false

namespace DmaCamera
open Calls Readers Runs

/-! What a card is configured with: bitstreams of the whole card and of a part of it, and the
clear bitstreams that go in front of the latter. -/

def imageWords (buffer : List Byte) : List U32 :=
  match bitstreamParseHeader (fun _ => true) buffer with
  | .ok f => wordsOf (bufferStream buffer f.headerLength.toNat) 0 (f.bitstreamLength.toNat/4)
  | .error _ => []

/-- A clear bitstream is kept for later, dropped, or goes to the card; so do bitstreams, and
words that fill the time. -/
inductive PortEvent where
  | boot (words : List U32)
  | clear (image : List Byte)
  | load (words : List U32)
  | fill (k : Nat)
  | keep (image : List Byte)
  | drop

def PortEvent.words : PortEvent → List U32
  | .boot ws => ws
  | .clear image => imageWords image
  | .load ws => ws
  | .fill k => noops k
  | .keep _ => []
  | .drop => []

/-- The clear bitstream for what is on the card, and the words that went there. -/
structure PortState where
  pending : Option (List Byte)
  port : List U32

def pendingNext : Option (List Byte) → PortEvent → Option (Option (List Byte))
  | pending, .boot _ => some pending
  | pending, .clear image => if pending = some image then some none else none
  | pending, .load _ => if pending = none then some none else none
  | pending, .fill _ => some pending
  | _, .keep image => some (some image)
  | _, .drop => some none

def portNext (p : PortState) (e : PortEvent) : Option PortState :=
  (pendingNext p.pending e).map fun pending => ⟨pending,p.port ++ e.words⟩

def BitDev.configured (s : BitDev) : PortState := ⟨s.clearBitstream,s.port⟩

abbrev Tells (es : List PortEvent) (s t : BitDev) : Prop :=
  Run (stepOf portNext) anyStep s.configured es t.configured

section tells

variable {env : BitEnv} {s t u : BitDev}

theorem Sends.tells (h : Sends [] s t) : Tells [] s t := by
  have hsame : t.configured = s.configured := by
    rw [BitDev.configured, h.stash, h.port, List.append_nil]
    rfl
  rw [Tells, hsame]
  exact .nil

theorem tells_single {e : PortEvent} (hport : t.port = s.port ++ e.words)
    (hpending : pendingNext s.clearBitstream e = some t.clearBitstream) : Tells [e] s t := by
  refine Run.single trivial ?_
  simp only [stepOf, portNext, BitDev.configured, hpending, hport, Option.map_some]

theorem Tells.behind {es : List PortEvent} (h : Tells [] s t) (h' : Tells es t u) : Tells es s u :=
  h.append h'

theorem Tells.quietly {es : List PortEvent} (h : Tells es s t) (h' : Tells [] t u) : Tells es s u := by
  simpa using h.append h'

theorem Sends.boot {ws : List U32} (h : Sends ws s t) : Tells [.boot ws] s t :=
  tells_single h.port (congrArg some h.stash.symm)

theorem Sends.load {ws : List U32} (h : Sends ws s t) (hnone : s.clearBitstream = none) :
    Tells [.load ws] s t := by
  refine tells_single h.port ?_
  rw [pendingNext, if_pos hnone, h.stash, hnone]

theorem Sends.fill {k : Nat} (h : Sends (noops k) s t) : Tells [.fill k] s t :=
  tells_single h.port (congrArg some h.stash.symm)

theorem tells_drop (hport : t.port = s.port) (hnone : t.clearBitstream = none) : Tells [.drop] s t :=
  tells_single (by rw [hport, PortEvent.words, List.append_nil]) (congrArg some hnone.symm)

theorem tells_keep {image : List Byte} (hport : t.port = s.port)
    (hsome : t.clearBitstream = some image) : Tells [.keep image] s t :=
  tells_single (by rw [hport, PortEvent.words, List.append_nil]) (congrArg some hsome.symm)

end tells

/-! A header that is accepted while memory is short is accepted. -/

section parse

variable {kmalloc : Byte → Bool} {data : List Byte} {f : XHwIcapBitHeader}

theorem readString_extends (tape : Nat → Option Byte) (tag : Byte) :
    Extends (readString tape (fun _ => true) tag) (readString tape kmalloc tag) := by
  refine (Extends.refl _).bind fun tmp => ?_
  split
  · refine (Extends.refl _).bind fun len => ?_
    rw [if_pos rfl]
    split
    · exact Extends.refl _
    · intro i r h
      cases h
  · exact Extends.refl _

theorem bitstreamParseHeader_granted (h : bitstreamParseHeader kmalloc data = .ok f) :
    bitstreamParseHeader (fun _ => true) data = .ok f := by
  have hextends : Extends (readHeader (tapeOf data) fun _ => true)
      (readHeader (tapeOf data) kmalloc) :=
    (Extends.refl _).bind fun _ => (Extends.refl _).bind fun _ =>
      (readString_extends _ tagA).bind fun _ => (readString_extends _ tagB).bind fun _ =>
      (readString_extends _ tagC).bind fun _ => (readString_extends _ tagD).bind fun _ => .refl _
  unfold bitstreamParseHeader at h ⊢
  cases hread : readHeader (tapeOf data) kmalloc 0 with
  | error e =>
    rw [hread] at h
    cases h
  | ok r =>
    rw [hread] at h
    rw [hextends 0 r hread]
    exact h

theorem imageWords_parsed (h : bitstreamParseHeader kmalloc data = .ok f) : imageWords data =
    wordsOf (bufferStream data f.headerLength.toNat) 0 (f.bitstreamLength.toNat/4) := by
  rw [imageWords, bitstreamParseHeader_granted h]

end parse

section download

variable {env : BitEnv} {s t u : BitDev}

theorem bitstreamClearMcap_tells : Ends (bitstreamClearMcap env) s
    (fun rc t => (rc ≠ 0 ∧ Tells [] s t) ∨ (rc = 0 ∧ t.clearBitstream = none ∧
      (Tells [] s t ∨ ∃ image, Tells [.clear image] s t))) fun _ _ => True := by
  rw [bitstreamClearMcap, ends_bind, ends_get]
  cases hstash : s.clearBitstream with
  | none => exact Or.inr ⟨rfl,hstash,Or.inl .nil⟩
  | some buffer =>
    dsimp only
    rw [ends_bind]
    refine (parseHeader_ends env.kmallocClear buffer).mono (fun header t h => ?_) fun _ _ _ => trivial
    obtain ⟨rfl,hsome,-⟩ := h
    cases header with
    | none => exact Or.inl ⟨by decide,.nil⟩
    | some bitHeader =>
      dsimp only
      rw [ends_ite]
      split
      · rw [ends_bind]
        refine (bitstreamMcapHelper_sends _ 0).mono (fun _ u h => ?_) fun _ _ h => h
        rw [ends_bind, ends_modify, ends_pure]
        refine Or.inr ⟨rfl,rfl,Or.inr ⟨buffer,tells_single ?_ ?_⟩⟩
        · rw [PortEvent.words, imageWords_parsed (hsome bitHeader rfl)]
          exact h.1.port
        · rw [hstash, pendingNext, if_pos rfl]
          rfl
      · exact Or.inl ⟨by decide,.nil⟩

inductive Loads (primary : List U32) : List PortEvent → Prop
  | none : Loads primary []
  | part {ws : List U32} : ws <+: primary → Loads primary [.load ws]
  | whole {k : Nat} : k ≤ emcapEosRetryCount+1 → Loads primary [.load primary,.fill k]

/-- At most one clear bitstream, and what is loaded behind it; a call that returns 0 has loaded
the whole. -/
structure Downloaded (primary : List U32) (rc : Int) (es : List PortEvent) : Prop where
  parts : ∃ front rest, es = front ++ rest ∧ (front = [] ∨ ∃ image, front = [.clear image]) ∧
    Loads primary rest ∧ (rc = 0 → ∃ k, rest = [.load primary,.fill k])

theorem Downloaded.failed {primary : List U32} {rc : Int} (h : rc ≠ 0) : Downloaded primary rc [] :=
  ⟨[],[],rfl,.inl rfl,.none,fun h0 => absurd h0 h⟩

theorem wordsOf_prefix (word : Nat → Option U32) {i n m : Nat} (h : n ≤ m) :
    wordsOf word i n <+: wordsOf word i m := by
  obtain ⟨k,rfl⟩ := Nat.exists_eq_add_of_le h
  rw [wordsOf_add]
  exact List.prefix_append _ _

theorem mcapWriteBitstream_tells (set : Int × U32) (bitBuf : U64) (bitHeader : XHwIcapBitHeader) :
    Ends (mcapWriteBitstream env set bitBuf bitHeader) s
      (fun rc t => ∃ es, Downloaded (env.bodyWords (bitBuf+bitHeader.headerLength.setWidth 64)
        (bitHeader.bitstreamLength.toNat/4)) rc es ∧ Tells es s t) fun _ _ => True := by
  rw [mcapWriteBitstream, ends_ite]
  split
  · rename_i hset
    exact ⟨[],.failed hset,.nil⟩
  rw [ends_bind]
  refine bitstreamClearMcap_tells.mono (fun cleared t h => ?_) fun _ _ h => h
  rw [ends_ite]
  rcases h with ⟨hrc,htells⟩ | ⟨rfl,hnone,hclear⟩
  · rw [if_pos hrc]
    exact ⟨[],.failed hrc,htells⟩
  rw [if_neg (by decide), ends_bind]
  obtain ⟨front,hfront,htells⟩ :
      ∃ front, (front = [] ∨ ∃ image, front = [.clear image]) ∧ Tells front s t := by
    rcases hclear with htells | ⟨image,htells⟩
    · exact ⟨[],.inl rfl,htells⟩
    · exact ⟨_,.inr ⟨image,rfl⟩,htells⟩
  refine (mcapBody_sends (userChunk_pieces _) 0 _ (bodyChunks_full _)).mono (fun copied u h => ?_)
    fun _ _ h => h
  obtain ⟨-,n,hn,hall,hsends⟩ := h
  rw [bodyChunks, bodyChunksFuel_words _ _ (Nat.le_refl _)] at hn hall
  have hload := htells.append (hsends.load hnone)
  rw [ends_ite]
  split
  · exact ⟨_,⟨front,_,rfl,hfront,.part (wordsOf_userStream _ _ ▸ wordsOf_prefix _ hn),
      fun h0 => absurd h0 (by decide)⟩,hload⟩
  rename_i hcopied
  rw [hall (by simpa using hcopied), wordsOf_userStream] at hload
  rw [ends_bind]
  refine downloadFailed_sends.mono (fun failed v h => ?_) fun _ _ h => h.elim
  obtain ⟨⟨k,hk,hfill⟩,-⟩ := h
  have hfilled := hload.append hfill.fill
  rw [List.append_assoc] at hfilled
  rw [ends_ite]
  split
  · rw [ends_bind, ends_mcapWriteControl, ends_bind]
    refine (silent_mCapFullReset _).mono (fun _ w h => ?_) fun _ _ h => h
    rw [ends_pure]
    exact ⟨_,⟨front,_,rfl,hfront,.whole hk,fun h0 => absurd h0 (by decide)⟩,
      Tells.quietly hfilled ((withControl_sends _).quietly h).tells⟩
  · exact ⟨_,⟨front,_,rfl,hfront,.whole hk,fun _ => ⟨k,rfl⟩⟩,hfilled⟩

def BitEnv.wordsAt (env : BitEnv) (bitBuf : U64) : List U32 :=
  match bitstreamParseHeader (fun _ => true) (env.userBytes bitBuf dmaHwicapBitfileBufferSize) with
  | .ok f => env.bodyWords (bitBuf+f.headerLength.setWidth 64) (f.bitstreamLength.toNat/4)
  | .error _ => []

theorem mcapPrimary_tells (bitBuf length : U64) : Ends (mcapPrimary env bitBuf length) s
    (fun rc t => ∃ es, Downloaded (env.wordsAt bitBuf) rc es ∧ Tells es s t) fun _ _ => True := by
  refine behindHeader_ends (fun rc hrc _ _ => ⟨[],.failed hrc,.nil⟩) (fun _ _ _ _ => trivial)
    fun f hf => ?_
  have hwords : env.wordsAt bitBuf =
      env.bodyWords (bitBuf+f.headerLength.setWidth 64) (f.bitstreamLength.toNat/4) := by
    rw [BitEnv.wordsAt, bitstreamParseHeader_granted hf.parse]
  rw [hwords, ends_bind]
  refine (silent_bitstreamMcapSetup false _).mono (fun set u h => ?_) fun _ _ h => h
  rw [ends_bind]
  refine (mcapWriteBitstream_tells set bitBuf f).mono (fun err v h' => ?_) fun _ _ h => h
  obtain ⟨es,hes,htells⟩ := h'
  rw [ends_bind, ends_mcapWriteControl, ends_pure]
  exact ⟨es,hes,(h.tells.behind htells).quietly (withControl_sends _).tells⟩

theorem bitstreamIoctlMcap_tells (bitBuf length : U64) :
    Ends (bitstreamIoctlMcap env bitBuf length) s
      (fun rc t => ∃ es, Downloaded (env.wordsAt bitBuf) rc es ∧ Tells es s t) fun _ _ => True := by
  rw [bitstreamIoctlMcap, ends_ite]
  split
  · exact ⟨[],.failed (by decide),.nil⟩
  rw [ends_bind]
  refine (silent_freezeAXIGate _).mono (fun _ t h => ?_) fun _ _ h => h
  rw [ends_bind]
  refine (mcapPrimary_tells bitBuf length).mono (fun err u h' => ?_) fun _ _ h => h
  obtain ⟨es,hes,htells⟩ := h'
  rw [ends_bind]
  refine (silent_freeAXIGate _).mono (fun _ v h'' => ?_) fun _ _ h => h
  exact ⟨es,hes,(h.tells.behind htells).quietly h''.tells⟩

def BitEnv.primaryWords (env : BitEnv) : List U32 :=
  match env.copyBitstreamObj, env.copyBinObj with
  | some buffer, some binObj => env.wordsAt (buffer+binObj.primaryFirmwareOffset)
  | _, _ => []

def BitEnv.secondaryImage (env : BitEnv) : Option (List Byte) :=
  match env.copyBitstreamObj, env.copyBinObj with
  | some buffer, some binObj =>
    if binObj.secondaryFirmwareLength = 0 then none else
      some (env.userBytes (buffer+binObj.secondaryFirmwareOffset)
        binObj.secondaryFirmwareLength.toNat)
  | _, _ => none

inductive KeepsImage (image : Option (List Byte)) : List PortEvent → Prop
  | none : KeepsImage image []
  | drop : image ≠ none → KeepsImage image [.drop]
  | keep {b : List Byte} : image = some b → KeepsImage image [.keep b]

/-- A download, and behind it the clear bitstream for it: a call that returns 0 has kept it,
or loaded the whole where there is none. -/
structure DownloadTold (env : BitEnv) (rc : Int) (es : List PortEvent) : Prop where
  parts : ∃ err front rest, es = front ++ rest ∧ Downloaded env.primaryWords err front ∧
    KeepsImage env.secondaryImage rest ∧ (rc = 0 → (env.secondaryImage = none → err = 0) ∧
      ∀ image, env.secondaryImage = some image → rest = [.keep image])

theorem DownloadTold.failed {rc : Int} (h : rc ≠ 0) : DownloadTold env rc [] :=
  ⟨rc,[],[],rfl,.failed h,.none,fun h0 => absurd h0 h⟩

theorem copySecondaryFirmware_tells (buffer : U64) (binObj : XclBin) :
    Ends (copySecondaryFirmware env buffer binObj) s
      (fun rc t => (rc ≠ 0 ∧ Tells [.drop] s t) ∨ (rc = 0 ∧ Tells [.keep (env.userBytes
        (buffer+binObj.secondaryFirmwareOffset) binObj.secondaryFirmwareLength.toNat)] s t))
      fun _ _ => False := by
  rw [copySecondaryFirmware, ends_bind, ends_modify, ends_ite]
  split
  · exact Or.inl ⟨by decide,tells_drop rfl rfl⟩
  rw [ends_ite]
  split
  · exact Or.inl ⟨by decide,tells_drop rfl rfl⟩
  · exact Or.inr ⟨rfl,tells_keep rfl rfl⟩

theorem bitstreamIoctl_tells : Ends (bitstreamIoctl env .mcapDownload) s
    (fun rc t => ∃ es, DownloadTold env rc es ∧ Tells es s t) fun _ _ => True := by
  unfold bitstreamIoctl
  cases hobj : env.copyBitstreamObj with
  | none => exact ⟨[],.failed (by decide),.nil⟩
  | some buffer =>
    cases hbin : env.copyBinObj with
    | none => exact ⟨[],.failed (by decide),.nil⟩
    | some binObj =>
      dsimp only
      cases hchecks : bitstreamIoctlChecks env.accessOk buffer binObj with
      | error err => exact ⟨[],.failed (bitstreamIoctlChecks_error hchecks),.nil⟩
      | ok =>
        have hprimary : env.primaryWords = env.wordsAt (buffer+binObj.primaryFirmwareOffset) := by
          rw [BitEnv.primaryWords, hobj, hbin]
        simp only [bitstreamDownload]
        rw [ends_bind]
        refine (bitstreamIoctlMcap_tells _ _).mono (fun err t h => ?_) fun _ _ h => h
        obtain ⟨front,hfront,htells⟩ := h
        rw [← hprimary] at hfront
        rw [ends_ite]
        split
        · rename_i hlength
          have hsecondary : env.secondaryImage = some (env.userBytes
              (buffer+binObj.secondaryFirmwareOffset) binObj.secondaryFirmwareLength.toNat) := by
            rw [BitEnv.secondaryImage, hobj, hbin]
            exact if_neg hlength
          refine (copySecondaryFirmware_tells buffer binObj).mono (fun rc u h => ?_) fun _ _ h => h.elim
          rcases h with ⟨hrc,hdrop⟩ | ⟨rfl,hkeep⟩
          · exact ⟨_,⟨err,front,_,rfl,hfront,.drop (by simp [hsecondary]),fun h0 => absurd h0 hrc⟩,
              htells.append hdrop⟩
          · refine ⟨_,⟨err,front,_,rfl,hfront,.keep hsecondary,fun _ => ⟨by simp [hsecondary],?_⟩⟩,
              htells.append hkeep⟩
            intro image himage
            rw [hsecondary, Option.some.injEq] at himage
            rw [himage]
        · rename_i hlength
          rw [not_not] at hlength
          have hsecondary : env.secondaryImage = none := by
            rw [BitEnv.secondaryImage, hobj, hbin]
            exact if_pos hlength
          refine ⟨front,⟨err,front,[],by simp,hfront,.none,fun h0 => ⟨fun _ => h0,?_⟩⟩,htells⟩
          simp [hsecondary]

end download

section boot

variable {env : BitEnv} {boot : BootEnv} {s t u : BitDev}

theorem bitstreamMcap_tells (buffer : List Byte) (length : U32) :
    Ends (bitstreamMcap env buffer length) s
      (fun rc t => (rc ≠ 0 ∧ Tells [] s t) ∨ ∃ k ≤ emcapEosRetryCount+1,
        Tells [.boot (imageWords buffer),.fill k] s t) fun _ _ => True := by
  rw [bitstreamMcap, ends_ite]
  split
  · trivial
  rw [ends_bind]
  refine (parseHeader_ends env.kmallocString buffer).mono (fun header t h => ?_) fun _ _ _ => trivial
  obtain ⟨rfl,hsome,-⟩ := h
  cases header with
  | none => exact Or.inl ⟨by decide,.nil⟩
  | some bitHeader =>
    dsimp only
    rw [ends_ite]
    split
    swap
    · exact Or.inl ⟨by decide,.nil⟩
    rw [ends_bind]
    refine (silent_bitstreamMcapSetup true _).mono (fun set u hset => ?_) fun _ _ h => h
    rw [ends_ite]
    split
    · rename_i herr
      exact Or.inl ⟨herr,hset.tells⟩
    rw [ends_bind]
    refine (bitstreamMcapHelper_sends _ 0).mono (fun _ v hwords => ?_) fun _ _ h => h
    rw [ends_bind]
    refine downloadFailed_sends.mono (fun failed w hfill => ?_) fun _ _ h => h.elim
    obtain ⟨⟨k,hk,hfill⟩,-⟩ := hfill
    have hboot := hwords.1.boot
    rw [← imageWords_parsed (hsome bitHeader rfl)] at hboot
    have hloaded := (hset.tells.behind hboot).append hfill.fill
    rw [ends_ite]
    split
    · rw [ends_bind, ends_mcapWriteControl, ends_bind]
      refine (silent_mCapFullReset _).mono (fun _ x h => ?_) fun _ _ h => h
      exact Or.inr ⟨k,hk,Tells.quietly hloaded ((withControl_sends _).quietly h).tells⟩
    · rw [ends_bind, ends_mcapWriteControl]
      exact Or.inr ⟨k,hk,Tells.quietly hloaded (withControl_sends _).tells⟩

/-- A second stage that is not loaded whole is not loaded at all; one that is makes the clear
bitstream useless. -/
inductive Boots (primary : List U32) (rc : Int) : List PortEvent → Prop
  | none : Boots primary rc []
  | failed : rc ≠ 0 → Boots primary rc [.drop]
  | whole {k : Nat} : k ≤ emcapEosRetryCount+1 → Boots primary rc [.boot primary,.fill k,.drop]

theorem bootPrimary_tells (data : List Byte) (binObj : XclBin) :
    Ends (bootPrimary env data binObj) s
      (fun rc t => ∃ es, Boots (imageWords (data.drop binObj.primaryFirmwareOffset.toNat)) rc es ∧
        (es = [] ↔ binObj.primaryFirmwareLength = 0) ∧ (es = [] → rc = 0) ∧ Tells es s t)
      fun _ _ => True := by
  rw [bootPrimary, ends_ite]
  split
  · rename_i hzero
    exact ⟨[],.none,by simp [hzero],fun _ => rfl,.nil⟩
  · rename_i hlength
    rw [ends_bind]
    refine (bitstreamMcap_tells _ _).mono (fun err t h => ?_) fun _ _ h => h
    rw [ends_bind, ends_modify, ends_pure]
    have hdrop : Tells [.drop] t t.clearStash := tells_drop rfl rfl
    rcases h with ⟨herr,htells⟩ | ⟨k,hk,htells⟩
    · exact ⟨_,.failed herr,by simpa using hlength,by simp,htells.append hdrop⟩
    · exact ⟨_,.whole hk,by simpa using hlength,by simp,htells.append hdrop⟩

def fileImage (boot : BootEnv) (data : List Byte) (binObj : XclBin) : Option (List Byte) :=
  if binObj.secondaryFirmwareLength = 0 then none else some (clearImage boot data binObj)

theorem bootSecondary_tells (data : List Byte) (binObj : XclBin) :
    Ends (bootSecondary env boot data binObj) s
      (fun rc t => ∃ es, KeepsImage (fileImage boot data binObj) es ∧ Tells es s t ∧
        (rc = 0 → binObj.primaryFirmwareLength ≠ 0 →
          ∀ image, fileImage boot data binObj = some image → es = [.keep image])) fun _ _ => True := by
  rw [bootSecondary, ends_bind, ends_get, ends_ite]
  split
  · rename_i hkept
    have himage : fileImage boot data binObj = some (clearImage boot data binObj) := if_neg hkept.1
    rw [ends_ite]
    split
    · rw [ends_bind, ends_modify, ends_pure]
      exact ⟨_,.drop (by simp [himage]),tells_drop rfl rfl,fun h0 => absurd h0 (by decide)⟩
    · dsimp only
      rw [ends_bind, ends_modify, ends_ite]
      split
      · trivial
      · refine ⟨_,.keep himage,tells_keep rfl rfl,fun _ _ image h => ?_⟩
        rw [himage, Option.some.injEq] at h
        rw [h]
  · rename_i hnot
    refine ⟨[],.none,.nil,fun _ hlength image h => ?_⟩
    have hzero : binObj.secondaryFirmwareLength = 0 := by
      by_contra hne
      exact hnot ⟨hne,Or.inl hlength⟩
    rw [fileImage, if_pos hzero] at h
    cases h

theorem bootVerify_tells : Ends (bootVerify env) s
    (fun rc t => (rc = 0 ∧ Tells [] s t) ∨ (rc ≠ 0 ∧ Tells [.drop] s t)) fun _ _ => True := by
  rw [bootVerify, ends_bind, ends_get]
  cases hstash : s.clearBitstream with
  | none => exact Or.inl ⟨rfl,.nil⟩
  | some buffer =>
    dsimp only
    rw [ends_bind]
    refine (parseHeader_ends env.kmallocClear buffer).mono (fun header t h => ?_) fun _ _ _ => trivial
    obtain ⟨rfl,-,-⟩ := h
    rw [ends_ite]
    split
    · exact Or.inr ⟨by decide,tells_drop rfl rfl⟩
    · exact Or.inl ⟨rfl,.nil⟩

def bootBinObj (data : List Byte) : XclBin where
  magic := data.take 8
  length := (fieldAt data lengthField).getD 0
  primaryFirmwareOffset := (fieldAt data primaryOffsetField).getD 0
  primaryFirmwareLength := (fieldAt data primaryLengthField).getD 0
  secondaryFirmwareOffset := (fieldAt data secondaryOffsetField).getD 0
  secondaryFirmwareLength := (fieldAt data secondaryLengthField).getD 0

/-- A load that returns 0 has loaded the second stage of the file, where there is one, and kept
the clear bitstream that came with it. -/
structure FileTold (boot : BootEnv) (data : List Byte) (rc : Int) (es : List PortEvent) : Prop where
  parts : ∃ err front middle rest, es = front ++ (middle ++ rest) ∧
    Boots (imageWords (data.drop (bootBinObj data).primaryFirmwareOffset.toNat)) err front ∧
    KeepsImage (fileImage boot data (bootBinObj data)) middle ∧ (rest = [] ∨ rest = [.drop]) ∧
    (rc = 0 → err = 0 ∧ rest = [] ∧ ((bootBinObj data).primaryFirmwareLength ≠ 0 → front ≠ [] ∧
      ∀ image, fileImage boot data (bootBinObj data) = some image → middle = [.keep image]))

theorem FileTold.failed {data : List Byte} {rc : Int} (h : rc ≠ 0) : FileTold boot data rc [] :=
  ⟨rc,[],[],[],rfl,.none,.none,.inl rfl,fun h0 => absurd h0 h⟩

theorem bootImages_tells (data : List Byte) : Ends (bootImages env boot data (bootBinObj data)) s
    (fun rc t => ∃ es, FileTold boot data rc es ∧ Tells es s t) fun _ _ => True := by
  rw [bootImages, ends_bind]
  refine (bootPrimary_tells data (bootBinObj data)).mono (fun err t h => ?_) fun _ _ h => h
  obtain ⟨front,hboots,hnil,hzero,hfront⟩ := h
  rw [ends_ite]
  split
  · rename_i herr
    exact ⟨front,⟨err,front,[],[],by simp,hboots,.none,.inl rfl,fun h0 => absurd h0 herr⟩,hfront⟩
  rename_i herr
  rw [not_not] at herr
  rw [ends_bind]
  refine (bootSecondary_tells data (bootBinObj data)).mono (fun err' u h => ?_) fun _ _ h => h
  obtain ⟨middle,hkeeps,hmiddle,hkept⟩ := h
  rw [ends_ite]
  split
  · rename_i herr'
    exact ⟨front ++ middle,⟨err,front,middle,[],by simp,hboots,hkeeps,.inl rfl,
      fun h0 => absurd h0 herr'⟩,hfront.append hmiddle⟩
  rename_i herr'
  rw [not_not] at herr'
  refine bootVerify_tells.mono (fun rc v h => ?_) fun _ _ h => h
  rcases h with ⟨rfl,htells⟩ | ⟨hrc,hdrop⟩
  · refine ⟨front ++ middle,⟨err,front,middle,[],by simp,hboots,hkeeps,.inl rfl,
      fun _ => ⟨herr,rfl,fun hlength => ⟨?_,hkept herr' hlength⟩⟩⟩,
      Tells.quietly (hfront.append hmiddle) htells⟩
    exact fun h => hlength (hnil.mp h)
  · exact ⟨_,⟨err,front,middle,[.drop],rfl,hboots,hkeeps,.inr rfl,fun h0 => absurd h0 hrc⟩,
      hfront.append (hmiddle.append hdrop)⟩

theorem readField_ends (data : List Byte) (i : Nat) : Ends (readField data i) s
    (fun w t => t = s ∧ (fieldAt data i).getD 0 = w) fun _ t => t = s := by
  unfold readField
  cases fieldAt data i with
  | none => rfl
  | some w => exact ⟨rfl,rfl⟩

theorem loadBootFirmware_tells : Ends (loadBootFirmware env boot) s
    (fun rc t => ∃ es, (bootFile env boot = none → rc = 0 ∧ es = []) ∧
      (∀ data, bootFile env boot = some data → FileTold boot data rc es) ∧ Tells es s t)
    fun _ _ => True := by
  unfold loadBootFirmware
  cases hfile : bootFile env boot with
  | none => exact ⟨[],fun _ => ⟨rfl,rfl⟩,by simp,.nil⟩
  | some data =>
    have hfailed : ∃ es, ((some data : Option (List Byte)) = none → -eInval = 0 ∧ es = []) ∧
        (∀ data', some data = some data' → FileTold boot data' (-eInval) es) ∧ Tells es s s :=
      ⟨[],by simp,fun _ _ => .failed (by decide),.nil⟩
    dsimp only
    rw [ends_bind]
    refine (readField_ends data lengthField).mono (fun length t h => ?_) fun _ _ _ => trivial
    obtain ⟨rfl,hlength⟩ := h
    rw [ends_ite]
    split
    · exact hfailed
    rw [ends_bind]
    refine (readField_ends data primaryOffsetField).mono (fun _ t h => ?_) fun _ _ _ => trivial
    obtain ⟨rfl,hprimaryOffset⟩ := h
    rw [ends_bind]
    refine (readField_ends data primaryLengthField).mono (fun _ t h => ?_) fun _ _ _ => trivial
    obtain ⟨rfl,hprimaryLength⟩ := h
    rw [ends_ite]
    split
    · exact hfailed
    rw [ends_bind]
    refine (readField_ends data secondaryOffsetField).mono (fun _ t h => ?_) fun _ _ _ => trivial
    obtain ⟨rfl,hsecondaryOffset⟩ := h
    rw [ends_bind]
    refine (readField_ends data secondaryLengthField).mono (fun _ t h => ?_) fun _ _ _ => trivial
    obtain ⟨rfl,hsecondaryLength⟩ := h
    rw [ends_ite]
    split
    · exact hfailed
    rw [← hlength, ← hprimaryOffset, ← hprimaryLength, ← hsecondaryOffset, ← hsecondaryLength]
    refine (bootImages_tells data).mono (fun rc u h => ?_) fun _ _ h => h
    obtain ⟨es,htold,htells⟩ := h
    refine ⟨es,by simp,?_,htells⟩
    rintro _ ⟨⟩
    exact htold

end boot

inductive ConfigCall where
  | boot (env : BitEnv) (files : BootEnv)
  | download (env : BitEnv)

def ConfigCall.call : ConfigCall → BitCall Int
  | .boot env files => loadBootFirmware env files
  | .download env => bitstreamIoctl env .mcapDownload

def Returned (s : BitDev) (c : ConfigCall × Int) (t : BitDev) : Prop :=
  c.1.call.outcome s = (.ok c.2,t)

def ConfigTold : ConfigCall × Int → List PortEvent → Prop
  | (.boot env files,rc), es => (bootFile env files = none → rc = 0 ∧ es = []) ∧
    ∀ data, bootFile env files = some data → FileTold files data rc es
  | (.download env,rc), es => DownloadTold env rc es

/-- However often a card is configured: a part is loaded when what was there is cleared, with the
clear bitstream that came with what was loaded last, once. -/
theorem run_clearedFirst {s₀ s : BitDev} {calls : List (ConfigCall × Int)}
    (r : Run Returned anyStep s₀ calls s) : ∃ ess, List.Forall₂ ConfigTold calls ess ∧
      Run (stepOf portNext) anyStep s₀.configured ess.flatten s.configured := by
  refine r.refine BitDev.configured ConfigTold fun s c t _ hs => ?_
  obtain ⟨c,rc⟩ := c
  cases c with
  | boot env files =>
    have hs : (loadBootFirmware env files).outcome s = (.ok rc,t) := hs
    obtain ⟨es,hnone,hsome,htells⟩ := loadBootFirmware_tells.of_ok hs
    exact ⟨es,⟨hnone,hsome⟩,htells⟩
  | download env =>
    have hs : (bitstreamIoctl env .mcapDownload).outcome s = (.ok rc,t) := hs
    exact bitstreamIoctl_tells.of_ok hs

def clearedEnv : BitEnv :=
  { fileEnv 34 16 true with
    mcapReg := fun _ => mcapStsEosMask
    user := fun addr => (twoWords ++ twoWords).getD (addr-0x10000).toNat 0
    copyBinObj := some ⟨xclBinMagic,68,0,34,34,34⟩ }

def noFiles : BootEnv := ⟨0x10ee,0,0,fun _ => none,fun _ => 0⟩

def bootBytes : List Byte :=
  xclBinMagic ++ fieldBytes 196 ++ List.replicate 64 0 ++ fieldBytes 128 ++ fieldBytes 34 ++
    fieldBytes 162 ++ fieldBytes 34 ++ List.replicate 16 0 ++ twoWords ++ twoWords

def bootFiles : BootEnv := { noFiles with requestFirmware := fun _ => some bootBytes }

def booted : BitDev := ((loadBootFirmware clearedEnv bootFiles).outcome restingDev).2

def afterDownload (s : BitDev) : BitDev := ((bitstreamIoctl clearedEnv .mcapDownload).outcome s).2

theorem afterDownload_returned {s : BitDev}
    (h : ((bitstreamIoctl clearedEnv .mcapDownload).outcome s).1 = .ok 0) :
    Returned s (.download clearedEnv,0) (afterDownload s) := Prod.ext h rfl

theorem run_clearedFirst_twice :
    booted.port = [0xaa995566,0x20000000] ∧
      (afterDownload (afterDownload booted)).port =
        [0xaa995566,0x20000000] ++ [0xaa995566,0x20000000] ++ [0xaa995566,0x20000000] ++
          [0xaa995566,0x20000000] ++ [0xaa995566,0x20000000] ∧
      ∃ ess, List.Forall₂ ConfigTold
          [(.boot clearedEnv bootFiles,0),(.download clearedEnv,0),(.download clearedEnv,0)] ess ∧
        Run (stepOf portNext) anyStep restingDev.configured ess.flatten
          (afterDownload (afterDownload booted)).configured := by
  have hloaded : ((loadBootFirmware clearedEnv bootFiles).outcome restingDev).1 = .ok 0 := by
    decide +kernel
  have hboot : Returned restingDev (.boot clearedEnv bootFiles,0) booted := by
    rw [Returned, ConfigCall.call, booted, ← hloaded]
  have hfirst : Returned booted (.download clearedEnv,0) (afterDownload booted) :=
    afterDownload_returned (by decide +kernel)
  have hsecond : Returned (afterDownload booted) (.download clearedEnv,0)
      (afterDownload (afterDownload booted)) := afterDownload_returned (by decide +kernel)
  exact ⟨by decide +kernel,by decide +kernel,
    run_clearedFirst (.cons trivial hboot (.cons trivial hfirst (.single trivial hsecond)))⟩

end DmaCamera
