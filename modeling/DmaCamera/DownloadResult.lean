import DmaCamera.IcapDelivery
set_option autoImplicit false

namespace DmaCamera
open Calls Readers

def BitEnv.bodyWords (env : BitEnv) (addr : U64) (n : Nat) : List U32 :=
  (List.range n).map fun k => env.userWord (addr+BitVec.ofNat 64 (4*k))

def StatusDone (s₁ t : BitDev) : Prop :=
  ∃ rs, t.reads = s₁.reads ++ rs ∧ ∃ v, (xhwicapSr,v) ∈ rs ∧ srReady v = true

/-- Behind the words of the clear bitstream are all words of the primary one in the write FIFO,
and the wait for the card succeeded. -/
def Delivered (env : BitEnv) (s t : BitDev) : Prop :=
  ∃ buffer binObj bitHeader s₁, env.copyBitstreamObj = some buffer ∧
    env.copyBinObj = some binObj ∧
    bitstreamParseHeader env.kmallocString (env.userBytes (buffer+binObj.primaryFirmwareOffset)
      dmaHwicapBitfileBufferSize) = .ok bitHeader ∧
    (freezeAndClear env).outcome s = (.ok 0,s₁) ∧
    t.fifo = s₁.fifo ++ env.bodyWords
      (buffer+binObj.primaryFirmwareOffset+bitHeader.headerLength.setWidth 64)
      (bitHeader.bitstreamLength.toNat/4) ∧
    StatusDone s₁ t

variable {env : BitEnv} {s s₁ t u : BitDev}

theorem wordsOf_userStream (addr : U64) (n : Nat) :
    wordsOf (env.userStream addr) 0 n = env.bodyWords addr n := by
  rw [wordsOf, BitEnv.bodyWords, ← List.range_eq_range', ← List.filterMap_eq_map]
  rfl

theorem StatusDone.append {rs : List (Nat × U32)} (h : t.reads = s₁.reads ++ rs) :
    StatusDone s₁ t ↔ ∃ v, (xhwicapSr,v) ∈ rs ∧ srReady v = true := by
  constructor
  · rintro ⟨rs',h',hv⟩
    rw [h, List.append_cancel_left_eq] at h'
    rwa [h']
  · intro hv
    exact ⟨rs,h,hv⟩

theorem statusDone_append {rs rs₁ rs₂ : List (Nat × U32)}
    (h : t.reads = s₁.reads ++ (rs₁ ++ (rs ++ rs₂))) (h₁ : ∀ r ∈ rs₁, r.1 ≠ xhwicapSr)
    (h₂ : ∀ r ∈ rs₂, r.1 ≠ xhwicapSr) :
    StatusDone s₁ t ↔ ∃ v, (xhwicapSr,v) ∈ rs ∧ srReady v = true := by
  rw [StatusDone.append h]
  refine exists_congr fun v => and_congr_left fun _ => ?_
  rw [List.mem_append, List.mem_append]
  constructor
  · rintro (hr | hr | hr)
    · exact absurd rfl (h₁ _ hr)
    · exact hr
    · exact absurd rfl (h₂ _ hr)
  · intro hr
    exact Or.inr (Or.inl hr)

/-- A body that was offered is done, with the wait behind it, exactly if the status says so. -/
theorem Loaded.statusDone {bitBuf : U64} {f : XHwIcapBitHeader} {rc : Int}
    (h : Loaded env bitBuf f s₁ rc u) (hfree : GateMoved false u t) :
    StatusDone s₁ t ↔ env.primaryEnd f s₁.time = .done ∧ rc = 0 := by
  obtain ⟨v,hoffered,_,hjudged⟩ := h.via
  obtain ⟨rs₁,hrs₁,hne₁⟩ := hoffered.quiet.reads
  obtain ⟨rs,hrs,hiff⟩ := hjudged.reads
  obtain ⟨rs₂,hrs₂,hne₂⟩ := hfree.reads
  rw [← hiff]
  refine statusDone_append ?_ hne₁ hne₂
  rw [hrs₂, hrs, hrs₁, List.append_assoc, List.append_assoc]

theorem primaryEnd_done {f : XHwIcapBitHeader} {time : Nat} :
    env.primaryEnd f time = .done ↔ env.copied f = bodyChunks f.bitstreamLength.toNat ∧
      (env.takes (bodyChunks f.bitstreamLength.toNat) time).all = true := by
  unfold BitEnv.primaryEnd endOf BitEnv.copied
  cases hall : (env.takes (copiedChunks env.copyChunk 0 (bodyChunks f.bitstreamLength.toNat))
      time).all with
  | false =>
    simp only [if_true, reduceCtorEq, false_iff, not_and]
    intro hcopied
    rw [← hcopied, hall]
    decide
  | true =>
    simp only [Bool.true_eq_false, if_false]
    split
    · rename_i hcopied
      rw [hcopied] at hall
      simp [hcopied, hall]
    · rename_i hcopied
      simp [hcopied]

theorem Loaded.fifo {bitBuf : U64} {f : XHwIcapBitHeader} {rc : Int}
    (h : Loaded env bitBuf f s₁ rc u) (hfree : GateMoved false u t)
    (hdone : env.primaryEnd f s₁.time = .done) : t.fifo = s₁.fifo ++
      env.bodyWords (bitBuf+f.headerLength.setWidth 64) (f.bitstreamLength.toNat/4) := by
  obtain ⟨v,hoffered,_,hjudged⟩ := h.via
  obtain ⟨hcopied,hall⟩ := primaryEnd_done.mp hdone
  rw [hfree.fifo, hjudged.fifo, hoffered.fifo, wordsOf_userStream, hcopied, takes_body_words hall]

/-- What a download leaves is delivered exactly if the clear bitstream went well, the body was
reached and taken, and the wait succeeded. -/
theorem IcapDone.delivered {buffer : U64} {binObj : XclBin} {rc : Int}
    (hbuffer : env.copyBitstreamObj = some buffer) (hbinObj : env.copyBinObj = some binObj)
    (h : IcapDone env (buffer+binObj.primaryFirmwareOffset) binObj.primaryFirmwareLength s rc t)
    (hu : u.writes = t.writes ∧ u.reads = t.reads) :
    Delivered env s u ↔ rc = 0 ∧
      (env.clears s.clearBitstream s.clearBitstreamLength (s.time+2)).1 = 0 ∧
      ∃ f, Reaches env (buffer+binObj.primaryFirmwareOffset) binObj.primaryFirmwareLength f ∧
        env.primaryEnd f (env.clears s.clearBitstream s.clearBitstreamLength (s.time+2)).2 = .done := by
  obtain ⟨cleared,s₁,t₁,hrun,hclears,hfree,hstep⟩ := h.steps
  rw [← hclears]
  have hstatus : StatusDone s₁ u ↔ StatusDone s₁ t := by rw [StatusDone, StatusDone, hu.2]
  have hfifo : u.fifo = t.fifo := by rw [BitDev.fifo, BitDev.fifo, hu.1]
  -- without a body there is no read of the status
  have hquiet (heq : t₁ = s₁) : ¬ StatusDone s₁ u := by
    obtain ⟨rs,hrs,hne⟩ := hfree.reads
    rw [heq] at hrs
    rw [hstatus, StatusDone.append hrs]
    rintro ⟨v,hv,_⟩
    exact hne _ hv rfl
  constructor
  · rintro ⟨buffer',binObj',f,s₁',hbuffer',hbinObj',hparse,hrun',hwords,hdone⟩
    rw [hbuffer] at hbuffer'
    rw [hbinObj] at hbinObj'
    cases hbuffer'
    cases hbinObj'
    rw [hrun] at hrun'
    cases hrun'
    rw [if_neg (not_not.mpr rfl)] at hstep
    rcases hstep with ⟨g,hreaches,hloaded⟩ | ⟨_,heq,_⟩
    · obtain ⟨hend,hzero⟩ := (hloaded.statusDone hfree).mp (hstatus.mp hdone)
      exact ⟨hzero,rfl,g,hreaches,hend⟩
    · exact absurd hdone (hquiet heq)
  · rintro ⟨hzero,hcleared,f,hreaches,hend⟩
    obtain rfl : cleared = 0 := hcleared
    rw [if_neg (not_not.mpr rfl)] at hstep
    rcases hstep with ⟨g,hreaches',hloaded⟩ | ⟨_,_,hnone⟩
    · obtain rfl := hreaches.unique hreaches'
      refine ⟨buffer,binObj,f,s₁,hbuffer,hbinObj,hreaches.parse,hrun,?_,?_⟩
      · rw [hfifo, hloaded.fifo hfree hend]
      · exact hstatus.mpr ((hloaded.statusDone hfree).mpr ⟨hend,hzero⟩)
    · exact absurd hreaches (hnone f)

theorem IcapDone.error_iff {bitBuf length : U64} {rc : Int} (h : IcapDone env bitBuf length s rc t) :
    rc = 0 ↔ (env.clears s.clearBitstream s.clearBitstreamLength (s.time+2)).1 = 0 ∧
      ∃ f, Reaches env bitBuf length f ∧
        (env.verdict
          (env.primaryEnd f (env.clears s.clearBitstream s.clearBitstreamLength (s.time+2)).2)
          (env.takes (env.copied f)
            (env.clears s.clearBitstream s.clearBitstreamLength (s.time+2)).2).time).1 = 0 := by
  obtain ⟨cleared,s₁,t₁,hrun,hclears,hfree,hstep⟩ := h.steps
  rw [← hclears]
  dsimp only
  split at hstep
  · rename_i hne
    obtain ⟨rfl,_⟩ := hstep
    constructor
    · exact fun h => absurd h hne
    · exact fun h => absurd h.1 hne
  · rename_i hzero
    rw [not_not] at hzero
    rcases hstep with ⟨f,hreaches,⟨u,_,htime,hjudged⟩⟩ | ⟨hrc,_,hnone⟩
    · have hverdict := hjudged.verdict
      rw [htime] at hverdict
      have hrc := congrArg Prod.fst hverdict
      constructor
      · intro h0
        exact ⟨hzero,f,hreaches,by rw [← hrc]; exact h0⟩
      · rintro ⟨_,g,hreaches',hg⟩
        obtain rfl := hreaches.unique hreaches'
        exact hrc.trans hg
    · constructor
      · exact fun h => absurd h hrc
      · rintro ⟨_,f,hreaches,_⟩
        exact absurd hreaches (hnone f)

theorem verdict_zero {bodyEnd : BodyEnd} {time : Nat} : (env.verdict bodyEnd time).1 = 0 ↔
    bodyEnd = .refused ∨ bodyEnd = .done ∧ (env.polls xhwicapSr srReady 10 time).1 = true := by
  cases bodyEnd with
  | fault => simp [BitEnv.verdict, eFault]
  | refused => simp [BitEnv.verdict]
  | done => cases h : (env.polls xhwicapSr srReady 10 time).1 <;> simp [BitEnv.verdict, h, eIo]

theorem primaryEnd_refused {f : XHwIcapBitHeader} {time : Nat} :
    env.primaryEnd f time = .refused ↔ (env.takes (env.copied f) time).all = false := by
  unfold BitEnv.primaryEnd endOf
  cases (env.takes (env.copied f) time).all with
  | false => simp
  | true =>
    simp only [Bool.true_eq_false, if_false, iff_false]
    split <;> decide

/-- What a download goes by, once its container is accepted: without a secondary bitstream the
card takes all words that are copied; and where a secondary bitstream is copied, the primary one
was delivered. -/
structure Trustworthy (env : BitEnv) (s : BitDev) (buffer : U64) (binObj : XclBin) : Prop where
  taken : binObj.secondaryFirmwareLength = 0 →
    (env.clears s.clearBitstream s.clearBitstreamLength (s.time+2)).1 = 0 →
    ∀ f, Reaches env (buffer+binObj.primaryFirmwareOffset) binObj.primaryFirmwareLength f →
      (env.takes (env.copied f)
        (env.clears s.clearBitstream s.clearBitstreamLength (s.time+2)).2).all = true
  secondary : binObj.secondaryFirmwareLength ≠ 0 → env.vmalloc = true → env.copySecondary = true →
    (env.clears s.clearBitstream s.clearBitstreamLength (s.time+2)).1 = 0 ∧
    ∃ f, Reaches env (buffer+binObj.primaryFirmwareOffset) binObj.primaryFirmwareLength f ∧
      env.copied f = bodyChunks f.bitstreamLength.toNat ∧
      (env.takes (bodyChunks f.bitstreamLength.toNat)
        (env.clears s.clearBitstream s.clearBitstreamLength (s.time+2)).2).all = true ∧
      (env.polls xhwicapSr srReady 10 (env.takes (bodyChunks f.bitstreamLength.toNat)
        (env.clears s.clearBitstream s.clearBitstreamLength (s.time+2)).2).time).1 = true

def Honest (env : BitEnv) (s : BitDev) : Prop :=
  ∀ buffer binObj, env.copyBitstreamObj = some buffer → env.copyBinObj = some binObj →
    bitstreamIoctlChecks env.accessOk buffer binObj = .ok () → Trustworthy env s buffer binObj

theorem bitstreamIoctlChecks_error {accessOk : U64 → U64 → Bool} {buffer : U64} {binObj : XclBin}
    {err : Int} (h : bitstreamIoctlChecks accessOk buffer binObj = .error err) : err ≠ 0 := by
  unfold bitstreamIoctlChecks at h
  split at h
  · cases h
    decide
  split at h
  · cases h
    decide
  split at h
  · cases h
    decide
  split at h
  · cases h
    decide
  · cases h

theorem copySecondaryFirmware_ends (buffer : U64) (binObj : XclBin) :
    Ends (copySecondaryFirmware env buffer binObj) s
      (fun rc t => (rc = 0 ↔ env.vmalloc = true ∧ env.copySecondary = true) ∧
        (t.writes = s.writes ∧ t.reads = s.reads) ∧ Spares s t)
      fun _ _ => False := by
  rw [copySecondaryFirmware, ends_bind, ends_modify, ends_ite]
  split
  · rename_i hvmalloc
    exact ⟨by simp [hvmalloc, eNoMem],⟨rfl,rfl⟩,rfl,rfl⟩
  · rename_i hvmalloc
    rw [ends_ite]
    split
    · rename_i hcopy
      exact ⟨by simp [hcopy, eFault],⟨rfl,rfl⟩,rfl,rfl⟩
    · rename_i hcopy
      exact ⟨by simp [hvmalloc, hcopy],⟨rfl,rfl⟩,rfl,rfl⟩

/-- A download, and the copy of the secondary bitstream whose result takes its place. -/
def downloadAndCopy (env : BitEnv) (buffer : U64) (binObj : XclBin) : BitCall Int := do
  let err ← bitstreamIoctlIcap env (buffer+binObj.primaryFirmwareOffset) binObj.primaryFirmwareLength
  if binObj.secondaryFirmwareLength ≠ 0 then copySecondaryFirmware env buffer binObj else pure err

theorem downloadAndCopy_ends (buffer : U64) (binObj : XclBin) :
    Ends (downloadAndCopy env buffer binObj) s
      (fun rc t => ∃ err u, IcapDone env (buffer+binObj.primaryFirmwareOffset)
          binObj.primaryFirmwareLength s err u ∧
        (t.writes = u.writes ∧ t.reads = u.reads) ∧
        if binObj.secondaryFirmwareLength = 0 then rc = err
        else (rc = 0 ↔ env.vmalloc = true ∧ env.copySecondary = true))
      fun _ _ => True := by
  rw [downloadAndCopy, ends_bind]
  refine (bitstreamIoctlIcap_ends _ _).mono (fun err u h => ?_) fun _ _ _ => trivial
  rw [ends_ite]
  split
  · rename_i hlength
    refine (copySecondaryFirmware_ends buffer binObj).mono (fun rc t h' => ?_) fun _ _ h => h.elim
    exact ⟨err,u,h,h'.2.1,h'.1⟩
  · rename_i hlength
    exact ⟨err,u,h,⟨rfl,rfl⟩,by rw [if_pos (not_not.mp hlength)]⟩

theorem downloadAndCopy_delivers {buffer : U64} {binObj : XclBin} {rc : Int}
    (hbuffer : env.copyBitstreamObj = some buffer) (hbinObj : env.copyBinObj = some binObj)
    (hrun : (downloadAndCopy env buffer binObj).outcome s = (.ok rc,t)) :
    (rc = 0 → Delivered env s t) ↔ Trustworthy env s buffer binObj := by
  obtain ⟨err,u,hdone,hsame,hrc⟩ := (downloadAndCopy_ends buffer binObj).of_ok hrun
  have hdelivered := hdone.delivered hbuffer hbinObj hsame
  have herror := hdone.error_iff
  by_cases hlength : binObj.secondaryFirmwareLength = 0
  · rw [if_pos hlength] at hrc
    subst hrc
    constructor
    · intro h
      refine ⟨fun _ hclears f hreaches => ?_,fun hne => absurd hlength hne⟩
      rw [← Bool.not_eq_false, ← primaryEnd_refused]
      intro hrefused
      have hzero := herror.mpr ⟨hclears,f,hreaches,verdict_zero.mpr (Or.inl hrefused)⟩
      obtain ⟨_,_,g,hreaches',hend⟩ := hdelivered.mp (h hzero)
      obtain rfl := hreaches.unique hreaches'
      rw [hend] at hrefused
      cases hrefused
    · intro h hzero
      obtain ⟨hclears,f,hreaches,hverdict⟩ := herror.mp hzero
      refine hdelivered.mpr ⟨hzero,hclears,f,hreaches,?_⟩
      rcases verdict_zero.mp hverdict with hrefused | ⟨hend,_⟩
      · rw [primaryEnd_refused, h.taken hlength hclears f hreaches] at hrefused
        cases hrefused
      · exact hend
  · rw [if_neg hlength] at hrc
    constructor
    · intro h
      refine ⟨fun hzero => absurd hzero hlength,fun _ hvmalloc hcopy => ?_⟩
      obtain ⟨hzero,hclears,f,hreaches,hend⟩ := hdelivered.mp (h (hrc.mpr ⟨hvmalloc,hcopy⟩))
      obtain ⟨hcopied,hall⟩ := primaryEnd_done.mp hend
      obtain ⟨_,g,hreaches',hverdict⟩ := herror.mp hzero
      obtain rfl := hreaches.unique hreaches'
      rcases verdict_zero.mp hverdict with hrefused | ⟨_,hpolls⟩
      · rw [hend] at hrefused
        cases hrefused
      · rw [hcopied] at hpolls
        exact ⟨hclears,f,hreaches,hcopied,hall,hpolls⟩
    · intro h hzero
      obtain ⟨hvmalloc,hcopy⟩ := hrc.mp hzero
      obtain ⟨hclears,f,hreaches,hcopied,hall,hpolls⟩ := h.secondary hlength hvmalloc hcopy
      have hend := primaryEnd_done.mpr ⟨hcopied,hall⟩
      refine hdelivered.mpr ⟨herror.mpr ⟨hclears,f,hreaches,?_⟩,hclears,f,hreaches,hend⟩
      rw [hcopied]
      exact verdict_zero.mpr (Or.inr ⟨hend,hpolls⟩)

/-- A call that returns 0 has delivered its bitstream exactly if it is trustworthy. -/
theorem bitstreamIoctl_delivers (env : BitEnv) (s : BitDev) (rc : Int) (t : BitDev)
    (hrun : (bitstreamIoctl env .icapDownload).outcome s = (.ok rc,t)) :
    (rc = 0 → Delivered env s t) ↔ Honest env s := by
  unfold bitstreamIoctl at hrun
  cases hbuffer : env.copyBitstreamObj with
  | none =>
    rw [hbuffer] at hrun
    cases hrun
    refine ⟨fun _ buffer _ h => ?_,fun _ h => absurd h (by decide)⟩
    rw [hbuffer] at h
    cases h
  | some buffer =>
    rw [hbuffer] at hrun
    dsimp only at hrun
    cases hbinObj : env.copyBinObj with
    | none =>
      rw [hbinObj] at hrun
      cases hrun
      refine ⟨fun _ _ binObj _ h => ?_,fun _ h => absurd h (by decide)⟩
      rw [hbinObj] at h
      cases h
    | some binObj =>
      rw [hbinObj] at hrun
      dsimp only at hrun
      have hhonest : Honest env s ↔ (bitstreamIoctlChecks env.accessOk buffer binObj = .ok () →
          Trustworthy env s buffer binObj) := by
        constructor
        · exact fun h => h buffer binObj hbuffer hbinObj
        · intro h b x hb hx
          rw [hbuffer] at hb
          rw [hbinObj] at hx
          cases hb
          cases hx
          exact h
      rw [hhonest]
      cases hchecks : bitstreamIoctlChecks env.accessOk buffer binObj with
      | error err =>
        rw [hchecks] at hrun
        have hne := bitstreamIoctlChecks_error hchecks
        cases hrun
        refine ⟨fun _ h => ?_,fun _ h => absurd h hne⟩
        cases h
      | ok _ =>
        rw [hchecks] at hrun
        have hlaw := downloadAndCopy_delivers hbuffer hbinObj hrun
        exact ⟨fun h _ => hlaw.mp h,fun h => hlaw.mpr (h rfl)⟩

def twoWords : List Byte :=
  [0,1,0,0,1,0x61,0,1,0,0x62,0,1,0,0x63,0,1,0,0x64,0,1,0,0x65,0,0,0,8,0xaa,0x99,0x55,0x66,0x20,0,0,0]

def fileEnv (secondary : U64) (vacancy : U32) (kmallocBuffer : Bool) : BitEnv where
  device := 0x8138
  userCharDev := true
  accessOkArg := true
  copyBase := some 0x586C0C6C
  reg := fun _ offset => if offset = xhwicapWfv then vacancy else if offset = xhwicapSr then 5 else 0
  mcapReg := fun _ => 0
  kmallocBuffer := kmallocBuffer
  kmallocString := fun _ => true
  kmallocClear := fun _ => true
  vmalloc := true
  copyBitstreamObj := some 0x10000
  copyBinObj := some ⟨xclBinMagic,64,0,34,34,secondary⟩
  accessOk := fun _ _ => true
  user := fun addr => twoWords.getD (addr-0x10000).toNat 0
  copyHeader := true
  copyChunk := fun _ => true
  copySecondary := true
  copyFreqScaling := none

theorem bitstreamIoctl_delivers_file :
    Honest (fileEnv 0 16 true) restingDev ∧ Delivered (fileEnv 0 16 true) restingDev
      ((bitstreamIoctl (fileEnv 0 16 true) .icapDownload).outcome restingDev).2 := by
  have hhonest : Honest (fileEnv 0 16 true) restingDev := by
    rintro buffer binObj hbuffer hbinObj _
    cases hbuffer
    cases hbinObj
    refine ⟨fun _ _ f hf => ?_,fun h => absurd rfl h⟩
    have hparse : bitstreamParseHeader (fileEnv 0 16 true).kmallocString
        ((fileEnv 0 16 true).userBytes (0x10000+0) dmaHwicapBitfileBufferSize) =
          .ok ⟨26,8,[0],[0],[0],[0],1⟩ := by decide +kernel
    obtain rfl := Except.ok.inj (hparse.symm.trans hf.parse)
    decide +kernel
  exact ⟨hhonest,(bitstreamIoctl_delivers (fileEnv 0 16 true) restingDev 0 _
    (Prod.ext (by decide +kernel) rfl)).mpr hhonest rfl⟩

theorem not_delivered (h : ∀ r ∈ t.reads, r.1 ≠ xhwicapSr) : ¬ Delivered env s t := by
  rintro ⟨_,_,_,s₁,_,_,_,_,_,rs,hrs,v,hv,_⟩
  exact h _ (by rw [hrs]; exact List.mem_append_right _ hv) rfl

/-- A card that has no room returns 0, and so does a call that has no memory but for the secondary
bitstream. -/
theorem stalled_undelivered :
    (∃ t, (bitstreamIoctl (fileEnv 0 0 true) .icapDownload).outcome restingDev = (.ok 0,t) ∧
      ¬ Delivered (fileEnv 0 0 true) restingDev t) ∧
    ∃ t, (bitstreamIoctl (fileEnv 4 16 false) .icapDownload).outcome restingDev = (.ok 0,t) ∧
      ¬ Delivered (fileEnv 4 16 false) restingDev t := by
  refine ⟨⟨_,Prod.ext ?_ rfl,not_delivered ?_⟩,⟨_,Prod.ext ?_ rfl,not_delivered ?_⟩⟩ <;>
    decide +kernel

end DmaCamera
