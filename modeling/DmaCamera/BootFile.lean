import DmaCamera.BitHeaderRoundTrip
import DmaCamera.Reconfiguration
set_option autoImplicit false

namespace DmaCamera
open Calls Readers

/-- A bitstream with its header, which says how long it is. -/
structure BitFile where
  header : BitHeader
  filler : Byte
  words : List U32
  length_eq : header.bitstreamLength.toNat = 4*words.length

def BitFile.encode (f : BitFile) : List Byte :=
  f.header.encode f.filler ++ f.words.flatMap word32

def imageBytes (f : Option BitFile) : List Byte := f.elim [] BitFile.encode

/-- A file with a second stage, a clear bitstream, both or none of them; `info` and `driver` are
the fields that are not looked at. -/
structure BootFile where
  primary : Option BitFile
  secondary : Option BitFile
  info : List Byte
  info_length : info.length = 64
  driver : List Byte
  driver_length : driver.length = 16
  short : 128+(imageBytes primary).length+(imageBytes secondary).length < 2^32

def BootFile.primaryLength (f : BootFile) : Nat := (imageBytes f.primary).length
def BootFile.secondaryLength (f : BootFile) : Nat := (imageBytes f.secondary).length

def BootFile.encode (f : BootFile) : List Byte :=
  xclBinMagic ++ (fieldBytes (BitVec.ofNat 64 (128+f.primaryLength+f.secondaryLength)) ++ (f.info ++
    (fieldBytes 128 ++ (fieldBytes (BitVec.ofNat 64 f.primaryLength) ++
    (fieldBytes (BitVec.ofNat 64 (128+f.primaryLength)) ++
    (fieldBytes (BitVec.ofNat 64 f.secondaryLength) ++ (f.driver ++
    (imageBytes f.primary ++ imageBytes f.secondary))))))))

@[simp] theorem fieldBytes_length (w : U64) : (fieldBytes w).length = 8 := rfl

theorem fieldBytes_join (w : U64) : (w.extractLsb' 56 8 ++ w.extractLsb' 48 8 ++ w.extractLsb' 40 8 ++
    w.extractLsb' 32 8 ++ w.extractLsb' 24 8 ++ w.extractLsb' 16 8 ++ w.extractLsb' 8 8 ++
    w.extractLsb' 0 8 : U64) = w := by
  iterate 7 rw [BitVec.extractLsb'_append_extractLsb'_eq_extractLsb' (by rfl)]
  exact BitVec.extractLsb'_eq_self

theorem fieldAt_front (w : U64) (back : List Byte) : fieldAt (fieldBytes w ++ back) 0 = some w :=
  congrArg some (fieldBytes_join w)

theorem fieldAt_skip {front back : List Byte} {n i j : Nat} (hn : front.length = n) (hi : i = n+j) :
    fieldAt (front ++ back) i = fieldAt back j := by
  subst hn
  subst hi
  have hbyte : ∀ k, (front ++ back)[front.length+j+k]? = back[j+k]? := by
    intro k
    rw [Nat.add_assoc, List.getElem?_append_right (Nat.le_add_right _ _), Nat.add_sub_cancel_left]
  have hfirst := hbyte 0
  rw [Nat.add_zero] at hfirst
  simp only [fieldAt, hfirst, hbyte, Nat.add_zero]

theorem be32_word32 (w : U32) : be32 (w.extractLsb' 24 8) (w.extractLsb' 16 8) (w.extractLsb' 8 8)
    (w.extractLsb' 0 8) = w :=
  (word_iff.mpr rfl).symm

theorem flatMap_word32_length (ws : List U32) : (ws.flatMap word32).length = 4*ws.length := by
  simp [word32, Nat.mul_comm]

theorem bufferStream_encode (front back : List Byte) (ws : List U32) {k : Nat} (hk : k < ws.length) :
    bufferStream (front ++ ws.flatMap word32 ++ back) front.length k = some ws[k] := by
  have hbyte : ∀ j < 4, (front ++ ws.flatMap word32 ++ back)[front.length+4*k+j]? =
      (word32 ws[k])[j]? := by
    intro j hj
    have hcut : ws.flatMap word32 =
        (ws.take k).flatMap word32 ++ (word32 ws[k] ++ (ws.drop (k+1)).flatMap word32) := by
      rw [← List.flatMap_cons, ← List.flatMap_append, List.getElem_cons_drop, List.take_append_drop]
    have hlen : ((ws.take k).flatMap word32).length = 4*k := by
      rw [flatMap_word32_length, List.length_take, Nat.min_eq_left (Nat.le_of_lt hk)]
    rw [List.append_assoc, Nat.add_assoc, List.getElem?_append_right (Nat.le_add_right _ _),
      Nat.add_sub_cancel_left, hcut, List.append_assoc, List.getElem?_append_right (by omega), hlen,
      Nat.add_sub_cancel_left, List.append_assoc, List.getElem?_append_left (by simpa [word32] using hj)]
  have hfirst := hbyte 0 (by decide)
  rw [Nat.add_zero] at hfirst
  rw [bufferStream, wordAt, hfirst, hbyte 1 (by decide), hbyte 2 (by decide), hbyte 3 (by decide)]
  exact congrArg some (be32_word32 ws[k])

theorem wordsOf_stream {stream : Nat → Option U32} {ws : List U32}
    (h : ∀ k < ws.length, stream k = ws[k]?) : wordsOf stream 0 ws.length = ws := by
  induction ws using List.reverseRecOn with
  | nil => rfl
  | append_singleton ws w ih =>
    have hfront := ih fun k hk => by
      rw [h k (by rw [List.length_append]; omega), List.getElem?_append_left hk]
    have hlast : stream ws.length = some w := by
      rw [h ws.length (by simp)]
      simp
    rw [List.length_append, List.length_singleton, wordsOf_add, hfront, Nat.zero_add, wordsOf]
    simp [hlast]

theorem wordsOf_encode (front back : List Byte) (ws : List U32) :
    wordsOf (bufferStream (front ++ ws.flatMap word32 ++ back) front.length) 0 ws.length = ws ∧
      ¬ Lacks (bufferStream (front ++ ws.flatMap word32 ++ back) front.length) 0 ws.length := by
  have hstream : ∀ k < ws.length,
      bufferStream (front ++ ws.flatMap word32 ++ back) front.length k = ws[k]? := by
    intro k hk
    rw [bufferStream_encode front back ws hk, List.getElem?_eq_getElem hk]
  refine ⟨wordsOf_stream hstream,?_⟩
  rintro ⟨k,hk,hnone⟩
  rw [Nat.zero_add, hstream k hk, List.getElem?_eq_getElem hk] at hnone
  cases hnone

section bitFile

variable (f : BitFile) (rest : List Byte)

theorem BitFile.parse : bitstreamParseHeader (fun _ => true) (f.encode ++ rest) =
    .ok f.header.fields := by
  rw [BitFile.encode, List.append_assoc]
  exact bitstreamParseHeader_ok_iff.mpr ⟨f.header,f.filler,rfl,List.prefix_append _ _⟩

theorem BitFile.encode_length : f.encode.length =
    f.header.fields.headerLength.toNat+f.header.fields.bitstreamLength.toNat := by
  have hsize : f.header.fields.bitstreamLength.toNat = 4*f.words.length := f.length_eq
  rw [BitFile.encode, List.length_append, flatMap_word32_length, hsize,
    f.header.fields_headerLength f.filler]

theorem BitFile.encode_words :
    wordsOf (bufferStream (f.encode ++ rest) f.header.fields.headerLength.toNat) 0
      (f.header.fields.bitstreamLength.toNat/4) = f.words ∧
    ¬ Lacks (bufferStream (f.encode ++ rest) f.header.fields.headerLength.toNat) 0
      (f.header.fields.bitstreamLength.toNat/4) := by
  have hsize : f.header.fields.bitstreamLength.toNat/4 = f.words.length := by
    have heq : f.header.fields.bitstreamLength.toNat = 4*f.words.length := f.length_eq
    omega
  rw [hsize, f.header.fields_headerLength f.filler]
  exact wordsOf_encode (f.header.encode f.filler) rest f.words

/-- The clear bitstream that is kept is the one that is written in front of the next load. -/
theorem BitFile.imageWords_encode : imageWords f.encode = f.words := by
  have hparse := f.parse []
  have hwords := (f.encode_words []).1
  rw [List.append_nil] at hparse hwords
  rw [imageWords_parsed hparse, hwords]

theorem BitFile.fits :
    bitstreamFits f.header.fields ((BitVec.ofNat 32 f.encode.length).setWidth 64) = true := by
  have hlength := f.encode_length
  rw [bitstreamFits_iff, BitVec.toNat_add, BitVec.toNat_setWidth, BitVec.toNat_ofNat]
  omega

end bitFile

section restores

variable {env : BitEnv} {s t : BitDev}

theorem mCapClearRequestByConfigure_restores (loopCount : Nat) :
    Ends (mCapClearRequestByConfigure env loopCount) s
      (fun r t => r.2 = s.control ∧ (r.1 ≠ 0 → r.1 = -eIo ∧ t.control = s.control))
      fun _ _ => False := by
  rw [mCapClearRequestByConfigure, ends_bind, ends_mcapReadControl, ends_bind, ends_isStatusSet,
    ends_ite]
  split
  · rw [ends_bind, ends_mcapWriteControl, ends_bind]
    refine (pollConfigure_ends loopCount).mono (fun n t _ => ?_) fun _ _ h => h
    rw [ends_ite]
    split
    · rw [ends_bind, ends_mcapWriteControl, ends_pure]
      exact ⟨rfl,fun _ => ⟨rfl,rfl⟩⟩
    · exact ⟨rfl,fun h => absurd rfl h⟩
  · exact ⟨rfl,fun h => absurd rfl h⟩

/-- Where the port is not set up, its control register is put back. -/
theorem bitstreamMcapSetup_restores (designSwitch : Bool) :
    Ends (bitstreamMcapSetup env designSwitch) s
      (fun r t => r.2 = s.control ∧ (r.1 ≠ 0 → r.1 = -eIo ∧ t.control = s.control))
      fun _ _ => False := by
  rw [bitstreamMcapSetup, ends_bind]
  refine (mCapClearRequestByConfigure_restores mcapLoopCount).mono (fun r t h => ?_) fun _ _ h => h
  rw [ends_ite]
  split
  · exact h
  rw [ends_bind]
  refine (anyStatusSet_ends _).mono (fun b u h' => ?_) fun _ _ h => h
  rw [ends_ite]
  split
  · rw [ends_bind, ends_mcapWriteControl, ends_pure]
    exact ⟨h.1,fun _ => ⟨rfl,h.1⟩⟩
  · rw [ends_bind, ends_mcapReadControl]
    dsimp only
    rw [ends_bind, ends_mcapWriteControl, ends_pure]
    exact ⟨h.1,fun h0 => absurd rfl h0⟩

theorem mCapFullReset_restores : Ends (mCapFullReset env) s
    (fun _ t => t.control = s.control) fun _ _ => False := by
  rw [mCapFullReset, ends_bind]
  refine (mCapClearRequestByConfigure_restores mcapLoopCount).mono (fun r t h => ?_) fun _ _ h => h
  rw [ends_ite]
  split
  · rename_i hne
    exact (h.2 hne).2
  · simp only [ends_bind, ends_mcapReadControl, ends_mcapWriteControl, ends_isStatusSet,
      ends_isControlSet]
    rw [ends_ite]
    split
    · exact h.1
    · exact h.1

end restores

/-- The words went to the card, the last status reads say that it is complete, and the design is
switched to. -/
structure Switched (env : BitEnv) (words : List U32) (s t : BitDev) : Prop where
  port : ∃ k ≤ emcapEosRetryCount+1, t.port = s.port ++ (words ++ noops k)
  completes : ∃ start, env.Completes start t.time
  control : t.control = s.control ||| mcapCtrlDesignSwitchMask

/-- The design is not switched to; the words went to the card, or none of them did. -/
structure Refused (words : List U32) (s t : BitDev) : Prop where
  port : t.port = s.port ∨ ∃ k ≤ emcapEosRetryCount+1, t.port = s.port ++ (words ++ noops k)
  control : t.control = s.control

section load

variable {env : BitEnv} {boot : BootEnv} {s t : BitDev}

theorem bitstreamMcap_file (hkmalloc : env.kmallocString = fun _ => true) {f : BitFile}
    {buffer rest : List Byte} {length : U32} (hbuffer : buffer = f.encode ++ rest)
    (hlen : length = BitVec.ofNat 32 f.encode.length) (hshort : f.encode.length < 2^32)
    (hlength : f.encode.length ≠ 0) : Ends (bitstreamMcap env buffer length) s
      (fun rc t => (rc = 0 ∧ Switched env f.words s t) ∨ (rc = -eIo ∧ Refused f.words s t))
      fun _ _ => False := by
  subst hbuffer
  subst hlen
  have hne : BitVec.ofNat 32 f.encode.length ≠ 0 := by
    rw [Ne, ← BitVec.toNat_inj, BitVec.toNat_ofNat, Nat.mod_eq_of_lt hshort]
    exact hlength
  have hheader : parseHeader env.kmallocString (f.encode ++ rest) = pure (some f.header.fields) := by
    rw [parseHeader, hkmalloc, f.parse rest]
  rw [bitstreamMcap, if_neg hne, hheader, ends_bind, ends_pure]
  dsimp only
  rw [if_pos f.fits, ends_bind]
  refine ((silent_bitstreamMcapSetup true s).and (bitstreamMcapSetup_restores true)).mono
    (fun set u h => ?_) fun _ _ h => h.2
  obtain ⟨hsilent,hrestore,herr⟩ := h
  have hport : u.port = s.port := by simpa using hsilent.port
  rw [ends_ite]
  split
  · rename_i hset
    exact Or.inr ⟨(herr hset).1,Or.inl hport,(herr hset).2⟩
  obtain ⟨hwords,hthere⟩ := f.encode_words rest
  rw [ends_bind]
  refine ((bitstreamMcapHelper_sends _ 0).and (bitstreamMcapHelper_ends _ 0)).mono
    (fun _ v h => ?_) fun _ _ h => hthere h.2.2.1
  obtain ⟨⟨hsends,-⟩,-⟩ := h
  rw [hwords] at hsends
  rw [ends_bind]
  refine downloadFailed_sends.mono (fun failed w h => ?_) fun _ _ h => h
  obtain ⟨⟨k,hk,hfill⟩,hcompletes⟩ := h
  have hloaded : w.port = s.port ++ (f.words ++ noops k) := by
    rw [hfill.port, hsends.port, hport, List.append_assoc]
  rw [ends_ite]
  split
  · rw [ends_bind, ends_mcapWriteControl, ends_bind]
    refine ((silent_mCapFullReset _).and mCapFullReset_restores).mono (fun _ x h => ?_)
      fun _ _ h => h.2
    refine Or.inr ⟨rfl,Or.inr ⟨k,hk,?_⟩,h.2.trans hrestore⟩
    rw [h.1.port, List.append_nil, (withControl_sends set.2).port, List.append_nil, hloaded]
  · rename_i hfailed
    rw [ends_bind, ends_mcapWriteControl, ends_pure]
    refine Or.inl ⟨rfl,⟨k,hk,?_⟩,⟨_,hcompletes (by simpa using hfailed)⟩,?_⟩
    · rw [(withControl_sends _).port, List.append_nil, hloaded]
    · exact congrArg (· ||| mcapCtrlDesignSwitchMask) hrestore

section fields

variable (f : BootFile)

theorem BootFile.encode_fields :
    fieldAt f.encode lengthField = some (BitVec.ofNat 64 (128+f.primaryLength+f.secondaryLength)) ∧
      fieldAt f.encode primaryOffsetField = some 128 ∧
      fieldAt f.encode primaryLengthField = some (BitVec.ofNat 64 f.primaryLength) ∧
      fieldAt f.encode secondaryOffsetField = some (BitVec.ofNat 64 (128+f.primaryLength)) ∧
      fieldAt f.encode secondaryLengthField = some (BitVec.ofNat 64 f.secondaryLength) := by
  have hmagic : xclBinMagic.length = 8 := rfl
  have hinfo := f.info_length
  have hskip : ∀ j, fieldAt f.encode (80+j) = fieldAt (fieldBytes 128 ++
      (fieldBytes (BitVec.ofNat 64 f.primaryLength) ++
      (fieldBytes (BitVec.ofNat 64 (128+f.primaryLength)) ++
      (fieldBytes (BitVec.ofNat 64 f.secondaryLength) ++ (f.driver ++
      (imageBytes f.primary ++ imageBytes f.secondary)))))) j := by
    intro j
    rw [BootFile.encode, fieldAt_skip hmagic (j := 72+j) (by omega),
      fieldAt_skip (fieldBytes_length _) (j := 64+j) (by omega), fieldAt_skip hinfo rfl]
  refine ⟨?_,?_,?_,?_,?_⟩
  · rw [BootFile.encode, fieldAt_skip hmagic (show lengthField = 8+0 from rfl), fieldAt_front]
  · exact (hskip 0).trans (fieldAt_front _ _)
  · rw [show primaryLengthField = 80+8 from rfl, hskip, fieldAt_skip (fieldBytes_length _) (j := 0) rfl,
      fieldAt_front]
  · rw [show secondaryOffsetField = 80+16 from rfl, hskip,
      fieldAt_skip (fieldBytes_length _) (j := 8) rfl,
      fieldAt_skip (fieldBytes_length _) (j := 0) rfl, fieldAt_front]
  · rw [show secondaryLengthField = 80+24 from rfl, hskip,
      fieldAt_skip (fieldBytes_length _) (j := 16) rfl,
      fieldAt_skip (fieldBytes_length _) (j := 8) rfl,
      fieldAt_skip (fieldBytes_length _) (j := 0) rfl, fieldAt_front]

theorem BootFile.encode_images : ∃ head : List Byte, head.length = 128 ∧
    f.encode = head ++ (imageBytes f.primary ++ imageBytes f.secondary) := by
  refine ⟨xclBinMagic ++ (fieldBytes (BitVec.ofNat 64 (128+f.primaryLength+f.secondaryLength)) ++
    (f.info ++ (fieldBytes 128 ++ (fieldBytes (BitVec.ofNat 64 f.primaryLength) ++
    (fieldBytes (BitVec.ofNat 64 (128+f.primaryLength)) ++
    (fieldBytes (BitVec.ofNat 64 f.secondaryLength) ++ f.driver)))))),?_,?_⟩
  · simp [xclBinMagic, f.info_length, f.driver_length]
  · simp [BootFile.encode]

theorem BootFile.encode_drop : f.encode.drop 128 = imageBytes f.primary ++ imageBytes f.secondary ∧
    f.encode.drop (128+f.primaryLength) = imageBytes f.secondary ∧
    f.encode.length = 128+f.primaryLength+f.secondaryLength := by
  obtain ⟨head,hhead,hencode⟩ := f.encode_images
  have hdrop : f.encode.drop 128 = imageBytes f.primary ++ imageBytes f.secondary := by
    rw [hencode, List.drop_left' hhead]
  refine ⟨hdrop,?_,?_⟩
  · rw [← List.drop_drop, hdrop]
    exact List.drop_left' rfl
  · rw [hencode, List.length_append, List.length_append, hhead, ← Nat.add_assoc]
    rfl

def BootFile.binObj : XclBin where
  magic := f.encode.take 8
  length := BitVec.ofNat 64 (128+f.primaryLength+f.secondaryLength)
  primaryFirmwareOffset := 128
  primaryFirmwareLength := BitVec.ofNat 64 f.primaryLength
  secondaryFirmwareOffset := BitVec.ofNat 64 (128+f.primaryLength)
  secondaryFirmwareLength := BitVec.ofNat 64 f.secondaryLength

theorem BootFile.lengths : 128+f.primaryLength+f.secondaryLength < 2^32 := f.short

theorem toNat_field {n : Nat} (h : n < 2^32) : (BitVec.ofNat 64 n).toNat = n ∧
    (BitVec.ofNat 64 n).setWidth 32 = BitVec.ofNat 32 n := by
  refine ⟨?_,?_⟩
  · rw [BitVec.toNat_ofNat]
    omega
  · apply BitVec.eq_of_toNat_eq
    rw [BitVec.toNat_setWidth, BitVec.toNat_ofNat, BitVec.toNat_ofNat]
    omega

theorem BootFile.clearImage_encode : clearImage boot f.encode f.binObj = imageBytes f.secondary := by
  have hlengths := f.lengths
  obtain ⟨hoffset,-⟩ := @toNat_field (128+f.primaryLength) (by omega)
  obtain ⟨hlength,hcut⟩ := @toNat_field f.secondaryLength (by omega)
  have hcopied : (BitVec.ofNat 32 f.secondaryLength).toNat = f.secondaryLength := by
    rw [BitVec.toNat_ofNat]
    omega
  rw [clearImage, BootFile.binObj, hoffset, hlength, hcut, hcopied, f.encode_drop.2.1,
    Nat.sub_self, List.range'_zero, List.map_nil, List.append_nil]
  exact List.take_length

theorem imageBytes_ne {g : Option BitFile} : (imageBytes g).length = 0 ↔ g = none := by
  cases g with
  | none => simp [imageBytes]
  | some p => simp [imageBytes, BitFile.encode, BitHeader.encode]

theorem field_zero {g : Option BitFile} (h : (imageBytes g).length < 2^32) :
    BitVec.ofNat 64 (imageBytes g).length = 0 ↔ g = none := by
  rw [← imageBytes_ne, ← BitVec.toNat_inj, (toNat_field h).1]
  rfl

end fields

def BitDev.stash (s : BitDev) : Option (List Byte) × U32 := (s.clearBitstream,s.clearBitstreamLength)

/-- What is stashed when a file has been loaded. A stash from before is kept unless there is a
second stage, or a clear bitstream in its place. -/
def BootFile.stashes (f : BootFile) (old : Option (List Byte) × U32) : Option (List Byte) × U32 :=
  if f.primary = none ∧ (f.secondary = none ∨ old.1 ≠ none) then old
  else (f.secondary.map BitFile.encode,BitVec.ofNat 32 f.secondaryLength)

structure BootFile.OnCard (f : BootFile) (env : BitEnv) (s t : BitDev) : Prop where
  alone : f.primary = none → t.port = s.port ∧ t.control = s.control
  switched : ∀ p, f.primary = some p → Switched env p.words s t

inductive BootFile.Loaded (f : BootFile) (env : BitEnv) (s t : BitDev) : Int → Prop
  | loaded : f.OnCard env s t → t.stash = f.stashes s.stash → f.Loaded env s t 0
  | noMemory : env.vmalloc = false → f.OnCard env s t → t.stash = (none,0) →
      f.Loaded env s t (-eNoMem)
  | refused (p : BitFile) : f.primary = some p → Refused p.words s t → t.stash = (none,0) →
      f.Loaded env s t (-eIo)

structure BootFile.Sent (f : BootFile) (env : BitEnv) (s : BitDev) (rc : Int) (t : BitDev) : Prop where
  alone : f.primary = none → rc = 0 ∧ t = s
  second : ∀ p, f.primary = some p → t.stash = (none,0) ∧
    ((rc = 0 ∧ Switched env p.words s t) ∨ (rc = -eIo ∧ Refused p.words s t))

theorem BootFile.Sent.onCard {f : BootFile} (h : f.Sent env s 0 t) : f.OnCard env s t where
  alone hprimary := by
    obtain ⟨-,rfl⟩ := h.alone hprimary
    exact ⟨rfl,rfl⟩
  switched p hprimary := by
    rcases (h.second p hprimary).2 with ⟨-,hs⟩ | ⟨hio,-⟩
    · exact hs
    · exact absurd hio (by decide)

theorem BootFile.OnCard.congr {f : BootFile} {u : BitDev} (h : f.OnCard env s t)
    (hwrites : u.mcapWrites = t.mcapWrites) (hcontrol : u.control = t.control)
    (htime : u.time = t.time) : f.OnCard env s u := by
  have hport : u.port = t.port := by rw [BitDev.port, hwrites, BitDev.port]
  refine ⟨fun hprimary => ?_,fun p hprimary => ?_⟩
  · rw [hport, hcontrol]
    exact h.alone hprimary
  · obtain ⟨hloaded,hcompletes,hswitch⟩ := h.switched p hprimary
    exact ⟨by rwa [hport],by rwa [htime],by rwa [hcontrol]⟩

theorem bootPrimary_file (hkmalloc : env.kmallocString = fun _ => true) (f : BootFile) :
    Ends (bootPrimary env f.encode f.binObj) s (f.Sent env s) fun _ _ => False := by
  have hlengths := f.lengths
  rw [bootPrimary, ends_ite]
  have hshort : f.primaryLength < 2^32 := by omega
  have hzero : f.binObj.primaryFirmwareLength = 0 ↔ f.primary = none := field_zero hshort
  cases hprimary : f.primary with
  | none =>
    rw [if_pos (hzero.mpr hprimary)]
    exact ⟨fun _ => ⟨rfl,rfl⟩,by simp [hprimary]⟩
  | some p =>
    have hne : ¬ f.binObj.primaryFirmwareLength = 0 := by
      rw [hzero, hprimary]
      simp
    have hsize : f.primaryLength = p.encode.length := by
      rw [BootFile.primaryLength, hprimary]
      rfl
    have hdrop : f.encode.drop f.binObj.primaryFirmwareOffset.toNat =
        p.encode ++ imageBytes f.secondary := by
      have hbytes : imageBytes f.primary = p.encode := by
        rw [hprimary]
        rfl
      rw [← hbytes]
      exact f.encode_drop.1
    have hcut : f.binObj.primaryFirmwareLength.setWidth 32 = BitVec.ofNat 32 p.encode.length := by
      rw [← hsize]
      exact (toNat_field (by omega)).2
    rw [if_neg hne, ends_bind]
    generalize f.encode.drop f.binObj.primaryFirmwareOffset.toNat = buffer at hdrop ⊢
    generalize f.binObj.primaryFirmwareLength.setWidth 32 = length at hcut ⊢
    have hsome : p.encode.length ≠ 0 := fun h => Option.some_ne_none p (imageBytes_ne.mp h)
    refine (bitstreamMcap_file hkmalloc hdrop hcut (by omega) hsome).mono (fun err t h => ?_)
      fun _ _ h => h
    rw [ends_bind, ends_modify, ends_pure]
    refine ⟨by simp [hprimary],fun q hq => ⟨rfl,?_⟩⟩
    rw [hprimary, Option.some.injEq] at hq
    subst hq
    rcases h with ⟨hrc,hport,hcompletes,hcontrol⟩ | ⟨hrc,hport,hcontrol⟩
    · exact Or.inl ⟨hrc,hport,hcompletes,hcontrol⟩
    · exact Or.inr ⟨hrc,hport,hcontrol⟩

/-- What is done to the stash, where `s` is what the card has left of it. -/
structure BootFile.Stashed (f : BootFile) (env : BitEnv) (s : BitDev) (rc : Int) (t : BitDev) :
    Prop where
  mcapWrites : t.mcapWrites = s.mcapWrites
  control : t.control = s.control
  time : t.time = s.time
  result : (rc = 0 ∧ t.stash =
      if f.secondary = none ∨ (f.primary = none ∧ s.clearBitstream ≠ none) then s.stash
      else (f.secondary.map BitFile.encode,BitVec.ofNat 32 f.secondaryLength)) ∨
    (rc = -eNoMem ∧ env.vmalloc = false ∧ t.stash = (none,0))

theorem bootSecondary_file (f : BootFile) :
    Ends (bootSecondary env boot f.encode f.binObj) s (f.Stashed env s) fun _ _ => False := by
  have hlengths := f.lengths
  have hsecondary : f.binObj.secondaryFirmwareLength = 0 ↔ f.secondary = none :=
    field_zero (show f.secondaryLength < 2^32 by omega)
  have hprimary : f.binObj.primaryFirmwareLength = 0 ↔ f.primary = none :=
    field_zero (show f.primaryLength < 2^32 by omega)
  have hkeeps : (f.binObj.secondaryFirmwareLength ≠ 0 ∧
      (f.binObj.primaryFirmwareLength ≠ 0 ∨ s.clearBitstream = none)) ↔
      ¬ (f.secondary = none ∨ (f.primary = none ∧ s.clearBitstream ≠ none)) := by
    rw [Ne, hsecondary, Ne, hprimary]
    tauto
  rw [bootSecondary, ends_bind, ends_get, ends_ite]
  by_cases hold : f.secondary = none ∨ (f.primary = none ∧ s.clearBitstream ≠ none)
  · rw [if_neg fun h => hkeeps.mp h hold, ends_pure]
    exact ⟨rfl,rfl,rfl,Or.inl ⟨rfl,(if_pos hold).symm⟩⟩
  rw [if_pos (hkeeps.mpr hold), ends_ite]
  by_cases hvmalloc : env.vmalloc = false
  · rw [if_pos hvmalloc, ends_bind, ends_modify, ends_pure]
    exact ⟨rfl,rfl,rfl,Or.inr ⟨rfl,hvmalloc,rfl⟩⟩
  have hcut : f.binObj.secondaryFirmwareLength.setWidth 32 = BitVec.ofNat 32 f.secondaryLength :=
    (toNat_field (by omega)).2
  have hcopied : (BitVec.ofNat 32 f.secondaryLength).toNat = f.secondaryLength := by
    rw [BitVec.toNat_ofNat]
    omega
  have hoffset : f.binObj.secondaryFirmwareOffset.toNat = 128+f.primaryLength :=
    (toNat_field (by omega)).1
  have hinside : ¬ (0 < f.secondaryLength ∧
      f.encode.length < f.binObj.secondaryFirmwareOffset.toNat+f.secondaryLength) := by
    rw [hoffset, f.encode_drop.2.2]
    omega
  obtain ⟨q,hq⟩ := Option.ne_none_iff_exists'.mp fun h => hold (Or.inl h)
  have himage : imageBytes f.secondary = q.encode := by
    rw [hq]
    rfl
  rw [if_neg hvmalloc]
  dsimp only
  rw [ends_bind, ends_modify, ends_ite, hcut, hcopied, f.clearImage_encode, himage, if_neg hinside,
    ends_pure]
  refine ⟨rfl,rfl,rfl,Or.inl ⟨rfl,?_⟩⟩
  rw [if_neg hold, hq]
  rfl

def Headed (buffer : List Byte) : Prop := ∃ (h : BitHeader) (filler : Byte), h.encode filler <+: buffer

theorem BitFile.headed (f : BitFile) : Headed f.encode := ⟨f.header,f.filler,List.prefix_append _ _⟩

theorem bootVerify_headed (hkmalloc : env.kmallocClear = fun _ => true)
    (hstash : ∀ buffer, s.clearBitstream = some buffer → Headed buffer) :
    Ends (bootVerify env) s (fun rc t => rc = 0 ∧ t = s) fun _ _ => False := by
  rw [bootVerify, ends_bind, ends_get]
  cases hclear : s.clearBitstream with
  | none => exact ⟨rfl,rfl⟩
  | some buffer =>
    obtain ⟨h,filler,hfront⟩ := hstash buffer hclear
    have hparse := bitstreamParseHeader_ok_iff.mpr ⟨h,filler,rfl,hfront⟩
    dsimp only
    rw [parseHeader, hkmalloc, hparse]
    dsimp only
    rw [ends_bind, ends_pure, if_neg (by simp)]
    exact ⟨rfl,rfl⟩

theorem BootFile.stashes_headed {f : BootFile} {old : Option (List Byte) × U32}
    (hold : ∀ buffer, old.1 = some buffer → Headed buffer) :
    ∀ buffer, (f.stashes old).1 = some buffer → Headed buffer := by
  intro buffer hbuffer
  rw [BootFile.stashes] at hbuffer
  split at hbuffer
  · exact hold buffer hbuffer
  · obtain ⟨q,-,rfl⟩ := Option.map_eq_some_iff.mp hbuffer
    exact q.headed

theorem BootFile.Sent.stash {f : BootFile} (h : f.Sent env s 0 t) :
    (if f.secondary = none ∨ (f.primary = none ∧ t.clearBitstream ≠ none) then t.stash
      else (f.secondary.map BitFile.encode,BitVec.ofNat 32 f.secondaryLength)) =
      f.stashes s.stash := by
  rw [BootFile.stashes]
  cases hprimary : f.primary with
  | none =>
    obtain ⟨-,rfl⟩ := h.alone hprimary
    simp [BitDev.stash]
  | some p =>
    have hcleared := (h.second p hprimary).1
    cases hsecondary : f.secondary with
    | none =>
      have hnone : f.secondaryLength = 0 := imageBytes_ne.mpr hsecondary
      simp [hcleared, hnone]
    | some q => simp

theorem loadBootFirmware_file {f : BootFile} (hfile : bootFile env boot = some f.encode)
    (hold : ∀ buffer, s.clearBitstream = some buffer → Headed buffer)
    (hstring : env.kmallocString = fun _ => true) (hclear : env.kmallocClear = fun _ => true) :
    Ends (loadBootFirmware env boot) s (fun rc t => f.Loaded env s t rc) fun _ _ => False := by
  have hlengths := f.lengths
  obtain ⟨hlength,hprimaryOffset,hprimaryLength,hsecondaryOffset,hsecondaryLength⟩ := f.encode_fields
  have hend : (BitVec.ofNat 64 (128+f.primaryLength+f.secondaryLength)).toNat =
      128+f.primaryLength+f.secondaryLength := (toNat_field hlengths).1
  have hfits : ∀ {a b : Nat}, a+b ≤ 128+f.primaryLength+f.secondaryLength →
      ¬ BitVec.ofNat 64 a+BitVec.ofNat 64 b >
        BitVec.ofNat 64 (128+f.primaryLength+f.secondaryLength) := by
    intro a b hab
    rw [gt_iff_lt, BitVec.lt_def, Nat.not_lt, hend, BitVec.toNat_add, (toNat_field (by omega)).1,
      (toNat_field (by omega)).1]
    omega
  unfold loadBootFirmware
  rw [hfile]
  dsimp only
  simp only [readField, hlength, hprimaryOffset, hprimaryLength, hsecondaryOffset, hsecondaryLength,
    pure_bind]
  have hprimary : ¬ (128 : U64)+BitVec.ofNat 64 f.primaryLength >
      BitVec.ofNat 64 (128+f.primaryLength+f.secondaryLength) :=
    @hfits 128 f.primaryLength (Nat.le_add_right _ _)
  rw [if_neg (by rw [hend, f.encode_drop.2.2]; omega), if_neg hprimary,
    if_neg (hfits (Nat.le_refl _))]
  change Ends (bootImages env boot f.encode f.binObj) s _ _
  rw [bootImages, ends_bind]
  refine (bootPrimary_file hstring f).mono (fun err t hsent => ?_) fun _ _ h => h
  rw [ends_ite]
  split
  · rename_i herr
    cases hprimary : f.primary with
    | none => exact absurd (hsent.alone hprimary).1 herr
    | some p =>
      obtain ⟨hcleared,⟨hrc,-⟩ | ⟨rfl,hrefused⟩⟩ := hsent.second p hprimary
      · exact absurd hrc herr
      · exact .refused p hprimary hrefused hcleared
  rename_i herr
  rw [not_not] at herr
  subst herr
  rw [ends_bind]
  refine (bootSecondary_file f).mono (fun err' u h => ?_) fun _ _ h => h
  have hcard : f.OnCard env s u := hsent.onCard.congr h.mcapWrites h.control h.time
  rcases h.result with ⟨rfl,hstash⟩ | ⟨rfl,hvmalloc,hcleared⟩
  · rw [hsent.stash] at hstash
    have hheaded : ∀ buffer, u.clearBitstream = some buffer → Headed buffer := by
      intro buffer hbuffer
      have hfirst : u.clearBitstream = (f.stashes s.stash).1 := congrArg Prod.fst hstash
      exact BootFile.stashes_headed hold buffer (hfirst.symm.trans hbuffer)
    rw [if_neg (by simp)]
    refine (bootVerify_headed hclear hheaded).mono (fun rc v h => ?_) fun _ _ h => h
    obtain ⟨rfl,rfl⟩ := h
    exact .loaded hcard hstash
  · rw [if_pos (by decide), ends_pure]
    exact .noMemory hvmalloc hcard hcleared

end load

def noText : CString := ⟨[0],rfl,by decide⟩

def twoWordsFile : BitFile where
  header := ⟨9,by decide,by decide,noText,noText,noText,noText,8⟩
  filler := 0
  words := [0xaa995566,0x20000000]
  length_eq := rfl

def twoStages : BootFile where
  primary := some twoWordsFile
  secondary := some twoWordsFile
  info := List.replicate 64 0
  info_length := rfl
  driver := List.replicate 16 0
  driver_length := rfl
  short := by decide

def clearOnly : BootFile where
  primary := none
  secondary := some { twoWordsFile with words := [0x66aa5599,0x04000000], length_eq := rfl }
  info := List.replicate 64 0
  info_length := rfl
  driver := List.replicate 16 0
  driver_length := rfl
  short := by decide

def filesOf (f : BootFile) : BootEnv := { noFiles with requestFirmware := fun _ => some f.encode }

def afterBoot : BitDev := ((loadBootFirmware clearedEnv (filesOf twoStages)).outcome restingDev).2

theorem afterBoot_returned :
    ((loadBootFirmware clearedEnv (filesOf twoStages)).outcome restingDev).1 = .ok 0 := by
  decide +kernel

end DmaCamera
