import DmaCamera.DescriptorAlignment
import DmaCamera.DescriptorLength
set_option autoImplicit false

namespace DmaCamera
open Spans

def ssizeT (count : Nat) : Int := (BitVec.ofNat 64 count).toInt

/-- Nothing remains of a negative count. -/
def charSgdmaReadWrite (engineDir : Bool) (m : AlignMode) (env : Nat → ChunkEnv) (buf count : Nat)
    (pos : Int) (dirToDev : Bool) : Except Fault (Int × Int × List XdmaTransfer) :=
  if dirToDev ≠ engineDir then .ok (-eInval,pos,[])
  else
    let rc := checkTransferAlign m buf count pos true
    if rc ≠ 0 then .ok (rc,pos,[])
    else transferData engineDir m.nonIncrAddr env buf (ssizeT count).toNat pos

def ChunkEnv.Fails (c : ChunkEnv) : Prop :=
  c.kernel.kzallocTransfer = false ∨
    if c.state = .submitted then c.rc ≠ 0 else c.state ≠ .completed

def ChunkEnv.Completes (c : ChunkEnv) : Prop :=
  c.kernel.kzallocTransfer = true ∧ c.state = .completed

def chunkCount (count : Nat) : Nat := (count+xdmaTransferMaxBytes-1)/xdmaTransferMaxBytes

def bytesMoved (env : Nat → ChunkEnv) (built : List XdmaTransfer) : Nat :=
  (built.zipIdx.map fun p => if (env p.2).state = .completed then p.1.expand.length else 0).sum

/-- An error leaves `*pos` as it was. Otherwise the bytes that were moved are
returned, and the incremental mode advances `*pos` by them. -/
structure Accounts (env : Nat → ChunkEnv) (nonIncrAddr : Bool) (pos ret pos' : Int)
    (built : List XdmaTransfer) : Prop where
  kept : ret < 0 → pos' = pos
  moved : 0 ≤ ret → ret = bytesMoved env built
  advanced : 0 ≤ ret → nonIncrAddr = false → pos' = pos+ret

/-- The first chunk is the one that fails, or every chunk completes, at device
addresses that a `loff_t` holds. -/
def failsFirst (env : Nat → ChunkEnv) (nonIncrAddr : Bool) (count : Nat) (pos : Int) : Prop :=
  (env 0).Fails ∨ (∀ i < chunkCount count, (env i).Completes) ∧
    (nonIncrAddr = false → pos+count < 2^63)

/-- The entries of a mapping take up as many bytes as the list that is mapped. -/
def Platform.KeepsBytes (k : Platform) : Prop :=
  ∀ sgl, k.pciMapSg sgl ≠ [] →
    ((k.pciMapSg sgl).map SgEntry.dmaLength).sum = (sgl.map Piece.length).sum

theorem transferBlocks_total {m : BuildMode} (es : List SgEntry) (b : Block) (hne : es ≠ [])
    (h : b.contLen+(es.map SgEntry.dmaLength).sum < 2^32) :
    ((transferBlocks m es b).map Block.contLen).sum =
      b.contLen+(es.map SgEntry.dmaLength).sum := by
  fun_induction transferBlocks m es b with
  | case1 b => exact absurd rfl hne
  | case2 entry b =>
    simp only [List.map_cons, List.map_nil, List.sum_cons, List.sum_nil, Nat.add_zero] at h ⊢
    exact Block.grow_contLen h
  | case3 entry next rest b b₁ hnew ih =>
    have hsum : ((entry :: next :: rest).map SgEntry.dmaLength).sum =
        entry.dmaLength+((next :: rest).map SgEntry.dmaLength).sum := rfl
    have hcl : b₁.contLen = b.contLen+entry.dmaLength := Block.grow_contLen (by omega)
    have hz : (b₁.advance m next).contLen = 0 := rfl
    rw [List.map_cons, List.sum_cons, ih (by simp) (by omega), hz, hcl, hsum]
    omega
  | case4 entry next rest b b₁ hnew ih =>
    have hsum : ((entry :: next :: rest).map SgEntry.dmaLength).sum =
        entry.dmaLength+((next :: rest).map SgEntry.dmaLength).sum := rfl
    have hcl : b₁.contLen = b.contLen+entry.dmaLength := Block.grow_contLen (by omega)
    rw [ih (by simp) (by omega), hcl, hsum]
    omega

theorem transferBuild_total {sgl : List SgEntry} {d d' : Nat → XdmaDesc} {ep : U64} {m : BuildMode}
    {last : Nat} (hlen : (sgl.map SgEntry.dmaLength).sum < 2^32)
    (h : transferBuild sgl d ep m = .ok (last,d')) :
    ((List.range (last+1)).flatMap fun i => (d' i).expand).length =
      (sgl.map SgEntry.dmaLength).sum := by
  have hne : sgl ≠ [] := by
    rintro rfl
    cases h
  have hz : (firstBlock sgl ep).contLen = 0 := rfl
  have htotal := @transferBlocks_total m sgl (firstBlock sgl ep) hne (by omega)
  rw [List.length_flatMap, transferBuild_map h (fun desc => desc.expand.length) Block.contLen,
    htotal, hz, Nat.zero_add]
  intro b hb desc
  rw [XdmaDesc.expand, bytes_length, Block.write_bytes (transferBlocks_lt b hb)]

theorem transferCreate_bytes {k : Platform} (hk : k.KeepsBytes) {start cnt : Nat} {ep : U64}
    {m : BuildMode} {x : XdmaTransfer} (hu : m.userspace = true) (h1 : 1 ≤ cnt)
    (hc : cnt ≤ xdmaTransferMaxBytes) (h : transferCreate k start cnt ep m = .ok (some x)) :
    x.expand.length = cnt := by
  obtain ⟨sgm,nents,bus,d,d',last,rfl,hbuild⟩ := transferCreate_pages hu hc h
  have hne : k.pciMapSg (pagePieces pageSize start cnt) ≠ [] := by
    intro hnil
    rw [hnil] at hbuild
    cases hbuild
  have htotal : ((k.pciMapSg (pagePieces pageSize start cnt)).map SgEntry.dmaLength).sum = cnt :=
    (hk _ hne).trans (pagePieces_tiles pageSize_pos h1).total
  have hlt : cnt < 2^32 := by
    unfold xdmaTransferMaxBytes at hc
    omega
  rw [filledIn_expand, transferBuild_total (by omega) hbuild, htotal]

theorem bytesMoved_append (env : Nat → ChunkEnv) (built : List XdmaTransfer) (x : XdmaTransfer) :
    bytesMoved env (built ++ [x]) = bytesMoved env built +
      if (env built.length).state = .completed then x.expand.length else 0 := by
  simp [bytesMoved, List.zipIdx_append]

theorem chunkVerdict_ne_zero (c : ChunkEnv) :
    chunkVerdict c.state c.rc ≠ 0 ↔
      if c.state = .submitted then c.rc ≠ 0 else c.state ≠ .completed := by
  unfold chunkVerdict
  cases c.state <;> simp [eIo, eRestartSys]

structure Between (env : Nat → ChunkEnv) (count : Nat) (pos : Int) (i : Nat) (s : DataState) :
    Prop where
  res : s.res = 0
  index : s.built.length = i
  left : s.done+s.remaining = count
  chunks : i+chunkCount s.remaining = chunkCount count
  started : i = 0 ↔ s.done = 0
  position : s.pos = Int.bmod (pos+s.done) (2^64)
  fine : ∀ j < i, ¬ (env j).Fails
  moved_le : bytesMoved env s.built ≤ s.done
  moved_iff : bytesMoved env s.built = s.done ↔ ∀ j < i, (env j).Completes

section loop

variable {m : BuildMode} {env : Nat → ChunkEnv} {count : Nat} {pos : Int}

theorem chunkCount_next {n : Nat} (h : 0 < n) : chunkCount n = chunkCount (n-chunkLength n)+1 := by
  unfold chunkCount
  by_cases hone : n ≤ xdmaTransferMaxBytes
  · have hlen : chunkLength n = n := if_neg (Nat.not_lt.mpr hone)
    rw [hlen]
    unfold xdmaTransferMaxBytes at *
    omega
  · have hlen : chunkLength n = xdmaTransferMaxBytes := if_pos (Nat.not_le.mp hone)
    rw [hlen, chunkCount_succ (Nat.not_le.mp hone)]

theorem Between.step {i : Nat} {s s' : DataState} (hu : m.userspace = true)
    (hk : (env i).kernel.KeepsBytes) (hb : Between env count pos i s) (hmore : 0 < s.remaining)
    (h : transferDataStep m (env i) s = .ok s') :
    ((env i).Fails ∧ s'.res < 0 ∧ s'.pos = s.pos) ∨ Between env count pos (i+1) s' := by
  obtain ⟨h1,hmax,hle⟩ := chunkLength_bounds hmore
  rcases transferDataStep_ok h with ⟨hnone,rfl⟩ | ⟨x,hx,⟨hv,rfl⟩ | ⟨hv,rfl⟩⟩
  · exact Or.inl ⟨Or.inl (transferCreate_none hnone),by simp [eIo],rfl⟩
  · have hnonpos := chunkVerdict_nonpos (env i).state (env i).rc
    exact Or.inl ⟨Or.inr ((chunkVerdict_ne_zero _).mp hv),by dsimp only; omega,rfl⟩
  · refine Or.inr ?_
    have hlen : (markLast x s).expand.length = chunkLength s.remaining := by
      rw [markLast_expand]
      exact transferCreate_bytes hk hu h1 hmax hx
    have hkz : (env i).kernel.kzallocTransfer = true := (transferCreate_steps hx).1
    have hnot : ¬ (env i).Fails := by
      rintro (hno | hfail)
      · rw [hkz] at hno
        cases hno
      · exact (chunkVerdict_ne_zero _).mpr hfail hv
    have hmoved : bytesMoved env (s.built ++ [markLast x s]) = bytesMoved env s.built +
        if (env i).state = .completed then chunkLength s.remaining else 0 := by
      rw [bytesMoved_append, hb.index, hlen]
    have hmle := hb.moved_le
    have hmiff := hb.moved_iff
    refine ⟨rfl,?_,?_,?_,?_,?_,?_,?_,?_⟩
    · simp [DataState.advance, DataState.build, hb.index]
    · have hleft := hb.left
      simp only [DataState.advance, DataState.build]
      omega
    · have hnext := chunkCount_next hmore
      have hchunks := hb.chunks
      simp only [DataState.advance, DataState.build]
      omega
    · simp only [DataState.advance, DataState.build]
      omega
    · simp only [DataState.advance, DataState.build, hb.position, Int.bmod_add_bmod]
      push_cast
      rw [Int.add_assoc]
    · intro j hj
      rcases Nat.lt_succ_iff_lt_or_eq.mp hj with hj | rfl
      · exact hb.fine j hj
      · exact hnot
    · simp only [DataState.advance, DataState.build, hmoved]
      split <;> omega
    · simp only [DataState.advance, DataState.build, hmoved]
      rw [Nat.forall_lt_succ_right, ← hmiff]
      by_cases hst : (env i).state = .completed
      · have hcomplete : (env i).Completes := ⟨hkz,hst⟩
        simp only [hst, if_true, hcomplete, and_true]
        omega
      · have hcomplete : ¬ (env i).Completes := fun hc => hst hc.2
        simp only [hst, if_false, hcomplete, and_false, iff_false]
        omega

theorem Between.run {i : Nat} {s t : DataState} (hu : m.userspace = true)
    (hk : ∀ j, (env j).kernel.KeepsBytes) (hb : Between env count pos i s)
    (h : transferDataLoop m env i s = .ok t) :
    (∃ f s', Between env count pos f s' ∧ 0 < s'.remaining ∧ (env f).Fails ∧
      t.res < 0 ∧ t.pos = s'.pos) ∨ (Between env count pos (chunkCount count) t ∧ t.done = count) := by
  fun_induction transferDataLoop m env i s with
  | case1 i s hmore f hstep => cases h
  | case2 i s hmore s' hstep ih =>
    rcases hb.step hu (hk i) hmore.2 hstep with ⟨hfail,hneg,hpos⟩ | hnext
    · rw [transferDataLoop_done (by omega)] at h
      cases h
      exact Or.inl ⟨i,s,hb,hmore.2,hfail,hneg,hpos⟩
    · exact ih hnext h
  | case3 i s hdone =>
    cases h
    have hzero : t.remaining = 0 := by
      have hres := hb.res
      omega
    have hi : i = chunkCount count := by
      have hchunks := hb.chunks
      rw [hzero] at hchunks
      exact hchunks
    have hleft := hb.left
    exact Or.inr ⟨hi ▸ hb,by omega⟩

theorem bmod_self_iff {p : Int} (hlow : -2^63 ≤ p) (hhigh : p < 2^64) :
    Int.bmod p (2^64) = p ↔ p < 2^63 := by
  simp only [Int.bmod]
  split <;> omega

/-- A chunk fails: `*pos` is as it was only if nothing was moved before it. -/
theorem Between.accounts_failed {f : Nat} {s : DataState} {nonIncrAddr : Bool} {ret pos' : Int}
    {built : List XdmaTransfer} (hlow : -2^63 ≤ pos) (hhigh : pos < 2^63) (hcount : count < 2^63)
    (hs : Between env count pos f s) (hmore : 0 < s.remaining) (hfail : (env f).Fails)
    (hneg : ret < 0) (hpos : pos' = s.pos) :
    Accounts env nonIncrAddr pos ret pos' built ↔ failsFirst env nonIncrAddr count pos := by
  have hleft := hs.left
  have hposition := hs.position
  have hkept : pos' = pos ↔ f = 0 := by
    rw [hs.started, hpos, hposition]
    simp only [Int.bmod]
    split <;> omega
  have hfirst : failsFirst env nonIncrAddr count pos ↔ f = 0 := by
    constructor
    · rintro (hfirst | ⟨hall,_⟩)
      · by_contra hf
        exact hs.fine 0 (Nat.pos_of_ne_zero hf) hfirst
      · -- the chunk that fails is one of those that should complete
        have hlt : f < chunkCount count := by
          have hchunks := hs.chunks
          have hrest := chunkCount_next hmore
          omega
        obtain ⟨hkz,hstate⟩ := hall f hlt
        rcases hfail with hno | hfail
        · rw [hkz] at hno
          cases hno
        · simp [hstate] at hfail
    · rintro rfl
      exact Or.inl hfail
  rw [hfirst, ← hkept]
  exact ⟨fun h => h.kept hneg,fun h => ⟨fun _ => h,fun hge => absurd hge (Int.not_le.mpr hneg),
    fun hge => absurd hge (Int.not_le.mpr hneg)⟩⟩

theorem Between.accounts_finished {t : DataState} {nonIncrAddr : Bool} (hlow : -2^63 ≤ pos)
    (hhigh : pos < 2^63) (hcount : count < 2^63) (ht : Between env count pos (chunkCount count) t)
    (hdone : t.done = count) :
    Accounts env nonIncrAddr pos t.done t.pos t.built ↔ failsFirst env nonIncrAddr count pos := by
  have hnonneg : (0 : Int) ≤ t.done := Int.natCast_nonneg _
  have hadv : t.pos = pos+t.done ↔ pos+count < 2^63 := by
    rw [ht.position, hdone]
    exact bmod_self_iff (by omega) (by omega)
  have hmoved : (t.done : Int) = bytesMoved env t.built ↔
      ∀ i < chunkCount count, (env i).Completes := by
    rw [← ht.moved_iff]
    omega
  have hrest : Accounts env nonIncrAddr pos t.done t.pos t.built ↔
      (∀ i < chunkCount count, (env i).Completes) ∧ (nonIncrAddr = false → pos+count < 2^63) := by
    rw [← hmoved, ← hadv]
    exact ⟨fun h => ⟨h.moved hnonneg,h.advanced hnonneg⟩,
      fun h => ⟨fun hneg => absurd hnonneg (Int.not_le.mpr hneg),fun _ => h.1,fun _ => h.2⟩⟩
  rw [hrest]
  refine ⟨Or.inr,?_⟩
  rintro (hfirst | hall)
  · -- the first chunk was not even tried
    have hnone : chunkCount count = 0 := by
      by_contra hc
      exact ht.fine 0 (Nat.pos_of_ne_zero hc) hfirst
    have hzero : count = 0 := by
      unfold chunkCount xdmaTransferMaxBytes at hnone
      omega
    rw [hnone, hzero]
    exact ⟨fun i hi => absurd hi (Nat.not_lt_zero i),fun _ => by simpa using hhigh⟩
  · exact hall

end loop

/-- `*pos` agrees with what is returned exactly if no chunk fails behind the first one. -/
theorem transferData_accounts {dir nonIncrAddr : Bool} {env : Nat → ChunkEnv} {start count : Nat}
    {pos ret pos' : Int} {built : List XdmaTransfer} (hk : ∀ i, (env i).kernel.KeepsBytes)
    (hlow : -2^63 ≤ pos) (hhigh : pos < 2^63) (hcount : count < 2^63)
    (h : transferData dir nonIncrAddr env start count pos = .ok (ret,pos',built)) :
    Accounts env nonIncrAddr pos ret pos' built ↔ failsFirst env nonIncrAddr count pos := by
  unfold transferData at h
  split at h
  · cases h
  · rename_i t hloop
    have h0 : Between env count pos 0 ⟨0,0,start,count,pos,[]⟩ := by
      have hself : pos = Int.bmod (pos+(0 : Nat)) (2^64) := by
        rw [Nat.cast_zero, Int.add_zero]
        exact ((bmod_self_iff hlow (by omega)).mpr hhigh).symm
      exact ⟨rfl,rfl,Nat.zero_add _,Nat.zero_add _,by simp,hself,by simp,by simp [bytesMoved],
        by simp [bytesMoved]⟩
    rcases h0.run rfl hk hloop with ⟨f,s,hs,hmore,hfail,hneg,hpos⟩ | ⟨ht,hdone⟩
    · rw [if_pos (by omega)] at h
      cases h
      exact hs.accounts_failed hlow hhigh hcount hmore hfail hneg hpos
    · rw [if_neg (by simp [ht.res])] at h
      cases h
      exact ht.accounts_finished hlow hhigh hcount hdone

theorem Platform.ample_keepsBytes (dma : Nat → U64) : (Platform.ample dma).KeepsBytes := by
  intro sgl _
  simp [Platform.ample, List.map_map, Function.comp_def]

theorem transferData_accounts_nineMiB : ∃ built,
    transferData true false completingEnv 0x10000 9437184 0 =
      .ok ((9437184 : Nat),(9437184 : Nat),built) ∧
    Accounts completingEnv false 0 (9437184 : Nat) (9437184 : Nat) built := by
  obtain ⟨t,_,_,h⟩ := transferData_completing ⟨0x10000,9437184,by decide⟩ (by decide) (by decide)
  have hk (i : Nat) : (completingEnv i).kernel.KeepsBytes :=
    Platform.ample_keepsBytes fun page => BitVec.ofNat 64 (page*pageSize)
  exact ⟨t.built,h,(transferData_accounts hk (by decide) (by decide) (by decide) h).mpr
    (Or.inr ⟨fun _ _ => ⟨rfl,rfl⟩,fun _ => by decide⟩)⟩

def lateFailure (i : Nat) : ChunkEnv :=
  ⟨identityKernel i,0,if i = 0 then .completed else .failed⟩

/-- Nine MiB of which the ninth fails: an error, behind which `*pos` is eight MiB further. -/
theorem lateFailure_advances : ∃ built,
    transferData true false lateFailure 0x10000 9437184 0 = .ok (-eIo,8388608,built) ∧
    ¬ Accounts lateFailure false 0 (-eIo) 8388608 built := by
  have h0 : Moved true (fun page => BitVec.ofNat 64 (page*pageSize)) 0x10000 9437184 0
      ⟨0,0,0x10000,9437184,0,[]⟩ := ⟨rfl,rfl,Nat.zero_add _,rfl,by simp,rfl⟩
  obtain ⟨s₁,h₁,hm⟩ := transferDataStep_moved (c := lateFailure 0) (identityKernel_maps 0) rfl
    (by norm_num) (Int.le_refl 0) (by norm_num) h0 (by decide)
  have hdone : s₁.done = 8388608 := by
    rcases transferDataStep_ok h₁ with ⟨_,rfl⟩ | ⟨x,_,⟨_,rfl⟩ | ⟨_,rfl⟩⟩
    · have hres := hm.res
      cases hres
    · have hleft := hm.left
      cases hleft
    · simp [DataState.advance, DataState.build, chunkLength, xdmaTransferMaxBytes]
  have hleft : s₁.remaining = 1048576 := by
    have h := hm.left
    omega
  have hpos : s₁.pos = 8388608 := by
    rw [hm.position, hdone]
    norm_num
  have haddr : s₁.transferAddr = 0x10000+8388608 := by rw [hm.addr, hdone]
  obtain ⟨x,hx,_⟩ := @transferCreate_moves _ _ (identityKernel_maps 1) s₁.transferAddr
    (chunkLength s₁.remaining) (by rw [hleft]; decide) (by rw [hleft]; decide)
    (by rw [haddr, hleft]; decide) (BitVec.ofInt 64 s₁.pos) true
  have h₂ : transferDataStep ⟨true,false,false,true⟩ (lateFailure 1) s₁ =
      .ok { s₁.build x with res := -eIo, remaining := 0 } := by
    unfold transferDataStep DataState.create
    rw [show (lateFailure 1).kernel = identityKernel 1 from rfl, hx]
    rfl
  refine ⟨(s₁.build x).built,?_,fun h => ?_⟩
  · rw [transferData, transferDataLoop_more ⟨rfl,by decide⟩ h₁,
      transferDataLoop_more ⟨hm.res,by omega⟩ h₂, transferDataLoop_done (by simp)]
    simp [eIo, DataState.build, hpos]
  · exact absurd (h.kept (by decide)) (by decide)

theorem charSgdmaReadWrite_outcome {engineDir dirToDev : Bool} {m : AlignMode}
    {env : Nat → ChunkEnv} {buf count : Nat} {pos ret pos' : Int} {built : List XdmaTransfer}
    (h : charSgdmaReadWrite engineDir m env buf count pos dirToDev = .ok (ret,pos',built)) :
    (ret = -eInval ∧ pos' = pos ∧ built = []) ∨
      (dirToDev = engineDir ∧ checkTransferAlign m buf count pos true = 0 ∧
        transferData engineDir m.nonIncrAddr env buf (ssizeT count).toNat pos =
          .ok (ret,pos',built)) := by
  unfold charSgdmaReadWrite at h
  split at h
  · cases h
    exact Or.inl ⟨rfl,rfl,rfl⟩
  · rename_i hdir
    rw [not_not] at hdir
    dsimp only at h
    split at h
    · rename_i hrc
      cases h
      exact Or.inl ⟨(checkTransferAlign_rc m buf count pos true).resolve_left hrc,rfl,rfl⟩
    · rename_i hrc
      rw [not_not] at hrc
      exact Or.inr ⟨hdir,hrc,h⟩

end DmaCamera
