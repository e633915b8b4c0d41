import DmaCamera.CreateOutcome
import DmaCamera.FixedAddress
import DmaCamera.RequestPaths
import Mathlib.Data.List.Chain
set_option autoImplicit false

namespace DmaCamera
open Spans

def XdmaDesc.hostAddr (desc : XdmaDesc) (dirToDev : Bool) : U64 :=
  if dirToDev then desc.src else desc.dst

def AlignMode.Suits (m : AlignMode) (host device : U64) : Prop :=
  if m.streaming || m.nonIncrAddr then host.toNat % m.alignment.addrAlign.toNat = 0
  else host.toNat % m.alignment.addrAlign.toNat = device.toNat % m.alignment.addrAlign.toNat

def XdmaTransfer.Aligned (x : XdmaTransfer) (m : AlignMode) : Prop :=
  ∀ i < x.descNum, m.Suits ((x.descVirt i).hostAddr x.dirToDev) ((x.descVirt i).deviceAddr x.dirToDev)

/-- One entry for each page, and pages are mapped to pages. -/
structure Platform.MapsPages (k : Platform) (dma : Nat → U64) : Prop where
  pciMapSg : ∀ sgl, k.pciMapSg sgl = sgl.map fun p => ⟨dma p.page+(p.offset : U64),p.length⟩
  aligned : ∀ page, (dma page).toNat % pageSize = 0

section residue

variable {A : Nat}

theorem add_residue (hA : A ∣ 2^64) (x y : U64) : (x+y).toNat % A = (x.toNat+y.toNat) % A := by
  rw [BitVec.toNat_add, Nat.mod_mod_of_dvd _ hA]

theorem ofNat_residue {w : Nat} (hA : A ∣ 2^w) (n : Nat) : (BitVec.ofNat w n).toNat % A = n % A := by
  rw [BitVec.toNat_ofNat, Nat.mod_mod_of_dvd _ hA]

theorem ofInt_residue {w : Nat} (hA : A ∣ 2^w) (i : Int) :
    (((BitVec.ofInt w i).toNat % A : Nat) : Int) = i % A := by
  have hpos : (0 : Int) < ((2^w : Nat) : Int) := by exact_mod_cast Nat.two_pow_pos w
  rw [Int.natCast_emod, BitVec.toNat_ofInt, Int.toNat_of_nonneg (Int.emod_nonneg _ (by omega))]
  exact Int.emod_emod_of_dvd i (Int.natCast_dvd_natCast.mpr hA)

theorem mask_residue {align : U32} {e : Nat} (hpow : align.toNat = 2^e) (w : U32) :
    (w &&& (align-1)).toNat = w.toNat % align.toNat := by
  have hpos : 0 < 2^e := Nat.two_pow_pos e
  have hlt := align.isLt
  have hmask : (align-1).toNat = 2^e-1 := by
    rw [BitVec.toNat_sub, hpow]
    have h1 : (1 : U32).toNat = 1 := rfl
    rw [h1]
    omega
  rw [BitVec.toNat_and, hmask, Nat.and_two_pow_sub_one_eq_mod, hpow]

end residue

theorem pow_dvd_pageSize {e : Nat} (h : 2^e ≤ pageSize) : 2^e ∣ pageSize := by
  have hexp : e ≤ 12 := (Nat.pow_le_pow_iff_right (a := 2) (by decide)).mp h
  exact Nat.pow_dvd_pow 2 hexp

theorem checkTransferAlign_suits {m : AlignMode} {buf count : Nat} {pos : Int} {sync : Bool} {e : Nat}
    (hpow : m.alignment.addrAlign.toNat = 2^e) (hle : 2^e ≤ pageSize)
    (h : checkTransferAlign m buf count pos sync = 0) :
    m.Suits (BitVec.ofNat 64 buf) (BitVec.ofInt 64 pos) := by
  have hdvd : 2^e ∣ 2^32 := Nat.dvd_trans (pow_dvd_pageSize hle) (by decide)
  have hdvd' : 2^e ∣ 2^64 := Nat.dvd_trans hdvd (by decide)
  have hbuf : (BitVec.ofNat 32 buf &&& (m.alignment.addrAlign-1)).toNat =
      (BitVec.ofNat 64 buf).toNat % m.alignment.addrAlign.toNat := by
    rw [mask_residue hpow, hpow, ofNat_residue hdvd, ofNat_residue hdvd']
  have hpos : (BitVec.ofInt 32 pos &&& (m.alignment.addrAlign-1)).toNat =
      (BitVec.ofInt 64 pos).toNat % m.alignment.addrAlign.toNat := by
    rw [mask_residue hpow, hpow]
    exact_mod_cast (ofInt_residue hdvd pos).trans (ofInt_residue hdvd' pos).symm
  have hneg : ¬ -eInval = 0 := by decide
  unfold checkTransferAlign at h
  unfold AlignMode.Suits
  dsimp only at h
  split at h
  · rename_i hmode
    rw [if_pos hmode]
    split at h
    · exact absurd h hneg
    · rename_i hlsb
      rw [not_not] at hlsb
      rw [← hbuf, hlsb]
      rfl
  · rename_i hmode
    rw [if_neg hmode]
    split at h
    · exact absurd h hneg
    · rename_i hlsb
      rw [not_not] at hlsb
      rw [← hbuf, ← hpos, hlsb]

theorem AlignMode.Suits.congr {m : AlignMode} {host host' device device' : U64}
    (h : m.Suits host device)
    (hhost : host'.toNat % m.alignment.addrAlign.toNat = host.toNat % m.alignment.addrAlign.toNat)
    (hdevice : device'.toNat % m.alignment.addrAlign.toNat =
      device.toNat % m.alignment.addrAlign.toNat) : m.Suits host' device' := by
  unfold AlignMode.Suits at h ⊢
  rw [hhost, hdevice]
  exact h

/-- A chunk that another one follows is a number of whole pages. -/
theorem chunkLength_pages {remaining : Nat} (h : 0 < remaining-chunkLength remaining) :
    chunkLength remaining % pageSize = 0 := by
  have hfull : chunkLength remaining = xdmaTransferMaxBytes := by
    unfold chunkLength at h ⊢
    split
    · rfl
    · rename_i hle
      rw [if_neg hle] at h
      omega
  rw [hfull]
  decide

theorem syncCalls_residue {m : BuildMode} {env : Nat → ChunkEnv} {i : Nat} {s : DataState} :
    ∀ c ∈ syncCalls m env i s, c.mode = m ∧ c.cnt ≤ xdmaTransferMaxBytes ∧
      c.start % pageSize = s.transferAddr % pageSize ∧
      c.epAddr.toNat % pageSize = (BitVec.ofInt 64 s.pos).toNat % pageSize := by
  have hself (s : DataState) (hmore : 0 < s.remaining) :
      (syncCall m s).mode = m ∧ (syncCall m s).cnt ≤ xdmaTransferMaxBytes ∧
        (syncCall m s).start % pageSize = s.transferAddr % pageSize ∧
        (syncCall m s).epAddr.toNat % pageSize = (BitVec.ofInt 64 s.pos).toNat % pageSize :=
    ⟨rfl,(chunkLength_bounds hmore).2.1,rfl,rfl⟩
  fun_induction syncCalls m env i s with
  | case1 i s hmore f hstep =>
    intro c hc
    rw [List.mem_singleton.mp hc]
    exact hself s hmore.2
  | case2 i s hmore s' hstep ih =>
    intro c hc
    rcases List.mem_cons.mp hc with rfl | hc
    · exact hself s hmore.2
    · have hmore' : s'.res = 0 ∧ 0 < s'.remaining := by
        by_contra hdone
        rw [syncCalls_done hdone] at hc
        cases hc
      obtain ⟨hmode,hcnt,hstart,hep⟩ := ih c hc
      rcases transferDataStep_ok hstep with ⟨_,rfl⟩ | ⟨x,_,⟨hv,rfl⟩ | ⟨_,rfl⟩⟩
      · exact absurd hmore'.2 (Nat.lt_irrefl 0)
      · exact absurd hmore'.2 (Nat.lt_irrefl 0)
      · have hpages : chunkLength s.remaining % pageSize = 0 := chunkLength_pages hmore'.2
        have hword : (chunkLength s.remaining : U64).toNat % pageSize = 0 :=
          (ofNat_residue (by decide) _).trans hpages
        refine ⟨hmode,hcnt,hstart.trans ?_,hep.trans ?_⟩
        · simp only [DataState.advance, DataState.build]
          rw [Nat.mod_mod_of_dvd _ (by decide), Nat.add_mod, hpages]
          simp
        · simp only [DataState.advance, DataState.build]
          rw [ofInt_bmod, ← ofInt_add_cast, add_residue (by decide), Nat.add_mod, hword]
          simp
  | case3 i s hdone => simp

theorem transferBlocks_contAddr {m : BuildMode} {es : List SgEntry} {b : Block} :
    ∀ b' ∈ transferBlocks m es b, b'.contAddr = b.contAddr ∨ ∃ e ∈ es, b'.contAddr = e.dmaAddress := by
  fun_induction transferBlocks m es b with
  | case1 b => simp
  | case2 entry b =>
    intro b' hb
    rw [List.mem_singleton.mp hb]
    exact Or.inl rfl
  | case3 entry next rest b b₁ hnew ih =>
    intro b' hb
    rcases List.mem_cons.mp hb with rfl | hb
    · exact Or.inl rfl
    · rcases ih b' hb with h | ⟨e,he,h⟩
      · exact Or.inr ⟨next,by simp,h⟩
      · exact Or.inr ⟨e,List.mem_cons_of_mem _ he,h⟩
  | case4 entry next rest b b₁ hnew ih =>
    intro b' hb
    rcases ih b' hb with h | ⟨e,he,h⟩
    · exact Or.inl h
    · exact Or.inr ⟨e,List.mem_cons_of_mem _ he,h⟩

/-- If every entry begins as far behind an aligned address as the one before it ends,
host and device address stay congruent from block to block. -/
theorem transferBlocks_congruent {m : BuildMode} (hm : m.nonIncrAddr = false) {A : Nat}
    (hA : A ∣ 2^32) (es : List SgEntry) (b : Block)
    (hchain : es.IsChain fun e f => (e.dmaAddress.toNat+e.dmaLength) % A = f.dmaAddress.toNat % A)
    (hb : b.contAddr.toNat % A = b.epAddr.toNat % A)
    (hnext : ∀ e, es.head? = some e → (b.epAddr.toNat+b.contLen) % A = e.dmaAddress.toNat % A) :
    ∀ b' ∈ transferBlocks m es b, b'.contAddr.toNat % A = b'.epAddr.toNat % A := by
  have hA64 : A ∣ 2^64 := Nat.dvd_trans hA (by decide)
  have hgrow (b : Block) (entry : SgEntry)
      (h : (b.epAddr.toNat+b.contLen) % A = entry.dmaAddress.toNat % A) :
      (b.epAddr.toNat+(b.grow entry).contLen) % A =
        (entry.dmaAddress.toNat+entry.dmaLength) % A := by
    simp only [Block.grow]
    rw [Nat.add_mod, Nat.mod_mod_of_dvd _ hA, ← Nat.add_mod, ← Nat.add_assoc, Nat.add_mod, h,
      ← Nat.add_mod]
  fun_induction transferBlocks m es b with
  | case1 b => simp
  | case2 entry b =>
    intro b' hb'
    rw [List.mem_singleton.mp hb']
    exact hb
  | case3 entry next rest b b₁ hnew ih =>
    obtain ⟨hjoin,hrest⟩ := List.isChain_cons_cons.mp hchain
    have hat := (hgrow b entry (hnext entry rfl)).trans hjoin
    have hep : (b₁.advance m next).epAddr.toNat % A = next.dmaAddress.toNat % A := by
      have hsum : (b₁.advance m next).epAddr = b₁.epAddr+BitVec.ofNat 64 b₁.contLen := by
        simp [Block.advance, hm]
      rw [hsum, add_residue hA64, Nat.add_mod, ofNat_residue hA64, ← Nat.add_mod]
      exact hat
    intro b' hb'
    rcases List.mem_cons.mp hb' with rfl | hb'
    · exact hb
    · refine ih hrest hep.symm ?_ b' hb'
      intro e he
      cases he
      exact hep
  | case4 entry next rest b b₁ hnew ih =>
    obtain ⟨hjoin,hrest⟩ := List.isChain_cons_cons.mp hchain
    refine ih hrest hb ?_
    intro e he
    cases he
    exact (hgrow b entry (hnext entry rfl)).trans hjoin

def pageEntry (dma : Nat → U64) (p : Piece) : SgEntry := ⟨dma p.page+(p.offset : U64),p.length⟩

theorem pageEntry_residue {dma : Nat → U64} (haligned : ∀ page, (dma page).toNat % pageSize = 0)
    {A : Nat} (hA : A ∣ pageSize) (p : Piece) :
    (pageEntry dma p).dmaAddress.toNat % A = p.offset % A := by
  have hA64 : A ∣ 2^64 := Nat.dvd_trans hA (by decide)
  have hpage : (dma p.page).toNat % A = 0 :=
    Nat.mod_eq_zero_of_dvd (Nat.dvd_trans hA (Nat.dvd_of_mod_eq_zero (haligned p.page)))
  simp only [pageEntry]
  rw [add_residue hA64, Nat.add_mod, hpage, Nat.zero_add, Nat.mod_mod]
  exact ofNat_residue hA64 p.offset

theorem pageEntries_chain {dma : Nat → U64} (haligned : ∀ page, (dma page).toNat % pageSize = 0)
    {A : Nat} (hA : A ∣ pageSize) (start cnt : Nat) :
    ((pagePieces pageSize start cnt).map (pageEntry dma)).IsChain fun e f =>
      (e.dmaAddress.toNat+e.dmaLength) % A = f.dmaAddress.toNat % A := by
  refine (List.isChain_map _).mpr ((pagePieces_chain pageSize_pos start cnt).imp ?_)
  rintro p q ⟨hend,hbegin⟩
  have hlen : (pageEntry dma p).dmaLength = p.length := rfl
  rw [Nat.add_mod, pageEntry_residue haligned hA, pageEntry_residue haligned hA, hbegin, hlen,
    ← Nat.add_mod, hend, Nat.zero_mod]
  exact Nat.mod_eq_zero_of_dvd hA

theorem transferCreate_pages {k : Platform} {start cnt : Nat} {ep : U64} {m : BuildMode}
    {x : XdmaTransfer} (hu : m.userspace = true) (hc : cnt ≤ xdmaTransferMaxBytes)
    (h : transferCreate k start cnt ep m = .ok (some x)) :
    ∃ sgm nents bus d d' last, x = filledIn m sgm nents bus d' last ∧
      transferBuild (k.pciMapSg (pagePieces pageSize start cnt)) d ep m = .ok (last,d') := by
  obtain ⟨_,sgm₀,rc,sgm,bus,d,last,d',hcreate,hpages,_,hmapped,_,hbuild,rfl⟩ :=
    transferCreate_steps h
  obtain ⟨_,_,rfl⟩ := sgCreateMapper_some_iff.mp hcreate
  rw [hu, if_pos rfl] at hpages
  obtain ⟨nr,hlisted,_⟩ := sgmGetUserPages_listed hpages rfl hmapped
  have hword : cnt < 2^64 := by
    unfold xdmaTransferMaxBytes at hc
    omega
  obtain ⟨_,_,hsgl⟩ := hlisted.pages hword (fewPages_of_le hc)
  rw [hsgl] at hbuild
  exact ⟨sgm,_,bus,d,d',last,rfl,hbuild⟩

theorem filledIn_hostAddr (m : BuildMode) (sgm : SgMapping) (nents : Nat) (bus : U64)
    (d : Nat → XdmaDesc) (last i : Nat) (dir : Bool) :
    ((filledIn m sgm nents bus d last).descVirt i).hostAddr dir = (d i).hostAddr dir := by
  have h := filledIn_deviceAddr m sgm nents bus d last i (!dir)
  cases dir <;> exact h

theorem Block.write_hostAddr (b : Block) (dir : Bool) (desc : XdmaDesc) :
    (b.write dir desc).hostAddr dir = b.contAddr := by
  cases dir <;> simp [Block.write, XdmaDesc.hostAddr]

theorem transferBlocks_suit {m : AlignMode} {dma : Nat → U64} {start cnt : Nat} {ep : U64}
    {mode : BuildMode} {e : Nat} (hincr : mode.nonIncrAddr = m.nonIncrAddr)
    (hpow : m.alignment.addrAlign.toNat = 2^e) (hA : 2^e ∣ pageSize)
    (haligned : ∀ page, (dma page).toNat % pageSize = 0)
    (hfirst : m.Suits (BitVec.ofNat 64 start) ep) :
    ∀ b ∈ transferBlocks mode ((pagePieces pageSize start cnt).map (pageEntry dma))
      (firstBlock ((pagePieces pageSize start cnt).map (pageEntry dma)) ep),
      m.Suits b.contAddr b.epAddr := by
  obtain ⟨length,rest,hcons⟩ := @pagePieces_head pageSize start cnt pageSize_pos
  obtain ⟨es,hes⟩ : ∃ es, es = (pagePieces pageSize start cnt).map (pageEntry dma) := ⟨_,rfl⟩
  have hA64 : 2^e ∣ 2^64 := Nat.dvd_trans hA (by decide)
  have hstart : (firstBlock es ep).contAddr.toNat % 2^e = (BitVec.ofNat 64 start).toNat % 2^e := by
    rw [hes, hcons, ofNat_residue hA64]
    exact (pageEntry_residue haligned hA _).trans (Nat.mod_mod_of_dvd start hA)
  rw [← hes]
  intro b hb
  unfold AlignMode.Suits at hfirst ⊢
  rw [hpow] at hfirst ⊢
  split at hfirst
  · rename_i hmode
    rw [if_pos hmode]
    rcases transferBlocks_contAddr b hb with h | ⟨entry,hentry,h⟩
    · rw [h, hstart, hfirst]
    · rw [hes] at hentry
      obtain ⟨p,hp,rfl⟩ := List.mem_map.mp hentry
      rw [h, pageEntry_residue haligned hA]
      rcases pagePieces_offset pageSize_pos start cnt p hp with hoff | hoff
      · rw [hoff, Nat.mod_mod_of_dvd start hA, ← ofNat_residue hA64, hfirst]
      · rw [hoff, Nat.zero_mod]
  · rename_i hmode
    rw [if_neg hmode]
    have hnonincr : mode.nonIncrAddr = false := by
      rw [hincr]
      simp only [Bool.or_eq_true, not_or, Bool.not_eq_true] at hmode
      exact hmode.2
    refine transferBlocks_congruent hnonincr (Nat.dvd_trans hA (by decide)) es (firstBlock es ep)
      (hes ▸ pageEntries_chain haligned hA start cnt) (hstart.trans hfirst) ?_ b hb
    intro entry hentry
    have hhead : (firstBlock es ep).contAddr = entry.dmaAddress := by
      cases es with
      | nil => cases hentry
      | cons first others =>
        cases hentry
        rfl
    rw [← hhead, hstart]
    exact hfirst.symm

/-- Every chunk of a synchronous request that passes the check has aligned descriptors. -/
theorem transferData_aligned {m : AlignMode} {dir : Bool} {buf count : Nat} {pos : Int} {e : Nat}
    (hpow : m.alignment.addrAlign.toNat = 2^e) (hle : 2^e ≤ pageSize)
    (hcheck : checkTransferAlign m buf count pos true = 0) {env : Nat → ChunkEnv} {c : CreateCall}
    (hc : c ∈ syncCalls ⟨dir,m.nonIncrAddr,false,true⟩ env 0 ⟨0,0,buf,count,pos,[]⟩)
    {k : Platform} {dma : Nat → U64} (hk : k.MapsPages dma) {x : XdmaTransfer}
    (hx : c.run k = .ok (some x)) : x.Aligned m := by
  have hA := pow_dvd_pageSize hle
  obtain ⟨hmode,hcnt,hstart,hep⟩ := syncCalls_residue c hc
  have hresidue {a b : Nat} (h : a % pageSize = b % pageSize) : a % 2^e = b % 2^e := by
    rw [← Nat.mod_mod_of_dvd a hA, h, Nat.mod_mod_of_dvd b hA]
  have hfirst : m.Suits (BitVec.ofNat 64 c.start) c.epAddr := by
    refine (checkTransferAlign_suits hpow hle hcheck).congr ?_ ?_
    · have hA64 : 2^e ∣ 2^64 := Nat.dvd_trans hA (by decide)
      rw [hpow, ofNat_residue hA64, ofNat_residue hA64]
      exact hresidue hstart
    · rw [hpow]
      exact hresidue hep
  obtain ⟨sgm,nents,bus,d,d',last,rfl,hbuild⟩ :=
    transferCreate_pages (by rw [hmode]) hcnt hx
  rw [hk.pciMapSg] at hbuild
  intro i hi
  obtain ⟨b,hb,hwrite⟩ := transferBuild_written hbuild (Nat.le_of_lt_succ hi)
  have hdir : (filledIn c.mode sgm nents bus d' last).dirToDev = c.mode.dirToDev := rfl
  rw [filledIn_hostAddr, filledIn_deviceAddr, hdir, hwrite, Block.write_hostAddr,
    Block.write_deviceAddr]
  exact transferBlocks_suit (by rw [hmode]) hpow hA hk.aligned hfirst b hb

def Platform.spread : Platform := .ample fun page => BitVec.ofNat 64 (page*8192)

theorem Platform.spread_maps : Platform.spread.MapsPages fun page => BitVec.ofNat 64 (page*8192) := by
  refine ⟨fun _ => rfl,fun page => ?_⟩
  have h : pageSize ∣ page*8192 := Nat.dvd_trans (by decide) (Nat.dvd_mul_left 8192 page)
  rw [ofNat_residue (by decide)]
  exact Nat.mod_eq_zero_of_dvd h

theorem transferData_aligned_twoPages : ∃ x,
    (syncCall ⟨true,false,false,true⟩ ⟨0,0,100,5000,4,[]⟩).run .spread = .ok (some x) ∧
      x.descNum = 2 ∧ x.Aligned ⟨false,false,⟨8,1⟩⟩ := by
  obtain ⟨x,hx,hnum⟩ : ∃ x, (syncCall ⟨true,false,false,true⟩ ⟨0,0,100,5000,4,[]⟩).run .spread =
      .ok (some x) ∧ x.descNum = 2 := ⟨_,rfl,rfl⟩
  have hcall : syncCall ⟨true,false,false,true⟩ ⟨0,0,100,5000,4,[]⟩ ∈
      syncCalls ⟨true,false,false,true⟩ completingEnv 0 ⟨0,0,100,5000,4,[]⟩ :=
    syncCall_mem ⟨rfl,by decide⟩
  exact ⟨x,hx,hnum,@transferData_aligned ⟨false,false,⟨8,1⟩⟩ true 100 5000 4 3 rfl (by decide)
    (by decide) completingEnv _ hcall _ _ Platform.spread_maps _ hx⟩

end DmaCamera
