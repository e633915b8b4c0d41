import DmaCamera.Fetch
import DmaCamera.Library.Circular
import DmaCamera.TransferData
set_option autoImplicit false

namespace DmaCamera
open Loops Spans

def xdmaResultSize : Nat := 32

def rxBufSize : Nat := rxBufPages * rxBufBlock

def xdmaDescControlClear (first : XdmaDesc) (clearMask : U32) : XdmaDesc :=
  { first with control := first.control &&& ~~~clearMask }

def xdmaDescControlSet (first : XdmaDesc) (setMask : U32) : XdmaDesc :=
  { first with control := first.control ||| setMask }

def xdmaDescSetSource (desc : XdmaDesc) (source : U64) : XdmaDesc :=
  { desc with
    srcAddrLo := pciDmaL source
    srcAddrHi := pciDmaH source }

/-- One iteration of `transfer_set_result_addresses`, with the running address. -/
def setResultAddress (i : Nat) : U64 × (Nat → XdmaDesc) → U64 × (Nat → XdmaDesc)
  | (resultBus, descVirt) =>
    (resultBus + BitVec.ofNat 64 xdmaResultSize,
      Function.update descVirt i (xdmaDescSetSource (descVirt i) resultBus))

def transferSetResultAddresses (x : XdmaTransfer) (resultBus : U64) : XdmaTransfer :=
  { x with descVirt := (forLoop x.descNum setResultAddress (resultBus,x.descVirt)).2 }

def transferSetAllControl (x : XdmaTransfer) (control : U32) : XdmaTransfer :=
  { x with descVirt := forLoop x.descNum (fun i d => Function.update d i
      (xdmaDescControlSet (xdmaDescControlClear (d i) lsByteMask) control)) x.descVirt }

def xdmaTransferCyclic (x : XdmaTransfer) : XdmaTransfer :=
  { x with
    descVirt := Function.update x.descVirt (x.descNum-1)
      (xdmaDescLink (x.descVirt (x.descNum-1)) (some x.descBus))
    cyclic := true }

def ringTransfer (x : XdmaTransfer) (resultBus : U64) : XdmaTransfer :=
  xdmaTransferCyclic (transferSetAllControl (transferSetResultAddresses x resultBus)
    (xdmaDescEop ||| xdmaDescCompleted))

theorem setResultAddress_loop (n : Nat) (resultBus : U64) (d : Nat → XdmaDesc) :
    (forLoop n setResultAddress (resultBus,d)).1 = resultBus+BitVec.ofNat 64 (xdmaResultSize*n) ∧
      ∀ k, (forLoop n setResultAddress (resultBus,d)).2 k =
        if k < n then xdmaDescSetSource (d k) (resultBus+BitVec.ofNat 64 (xdmaResultSize*k))
        else d k := by
  refine forLoop_invariant (fun n (r : U64 × (Nat → XdmaDesc)) =>
    r.1 = resultBus+BitVec.ofNat 64 (xdmaResultSize*n) ∧ ∀ k, r.2 k =
      if k < n then xdmaDescSetSource (d k) (resultBus+BitVec.ofNat 64 (xdmaResultSize*k))
      else d k) n ?_ ?_
  · simp
  · rintro i ⟨bus,e⟩ _ ⟨hbus,he⟩
    simp only at hbus he
    refine ⟨?_,fun k => ?_⟩
    · simp only [setResultAddress]
      rw [hbus, BitVec.add_assoc, ← BitVec.ofNat_add, Nat.mul_succ]
    · simp only [setResultAddress]
      by_cases hk : k = i
      · subst k
        simp [he, hbus]
      · have hlt : k < i+1 ↔ k < i := by omega
        rw [Function.update_of_ne hk, he]
        simp only [hlt]

def ringDesc (desc : XdmaDesc) (source : U64) : XdmaDesc :=
  xdmaDescControlSet (xdmaDescControlClear (xdmaDescSetSource desc source) lsByteMask)
    (xdmaDescEop ||| xdmaDescCompleted)

section ring

variable (x : XdmaTransfer) (resultBus : U64)

@[simp] theorem ringTransfer_descBus : (ringTransfer x resultBus).descBus = x.descBus := rfl

@[simp] theorem ringTransfer_descNum : (ringTransfer x resultBus).descNum = x.descNum := rfl

@[simp] theorem ringTransfer_cyclic : (ringTransfer x resultBus).cyclic = true := rfl

@[simp] theorem ringTransfer_busAt (i : Nat) : (ringTransfer x resultBus).busAt i = x.busAt i := rfl

variable {x} {i : Nat}

theorem ringTransfer_swept (h : i < x.descNum) :
    (transferSetAllControl (transferSetResultAddresses x resultBus)
      (xdmaDescEop ||| xdmaDescCompleted)).descVirt i =
      ringDesc (x.descVirt i) (resultBus+BitVec.ofNat 64 (xdmaResultSize*i)) := by
  have hsource := (setResultAddress_loop x.descNum resultBus x.descVirt).2 i
  rw [if_pos h] at hsource
  have hcontrol := forLoop_update x.descNum (fun _ e => xdmaDescControlSet
    (xdmaDescControlClear e lsByteMask) (xdmaDescEop ||| xdmaDescCompleted))
    (transferSetResultAddresses x resultBus).descVirt i
  rw [if_pos h] at hcontrol
  rw [ringDesc, ← hsource]
  exact hcontrol

theorem ringTransfer_inner (h : i+1 < x.descNum) : (ringTransfer x resultBus).descVirt i =
    ringDesc (x.descVirt i) (resultBus+BitVec.ofNat 64 (xdmaResultSize*i)) := by
  rw [← ringTransfer_swept resultBus (by omega)]
  exact Function.update_of_ne (by simp only [transferSetAllControl, transferSetResultAddresses]; omega) _ _

theorem ringTransfer_last (h : i+1 = x.descNum) : (ringTransfer x resultBus).descVirt i =
    xdmaDescLink (ringDesc (x.descVirt i) (resultBus+BitVec.ofNat 64 (xdmaResultSize*i)))
      (some x.descBus) := by
  have hi : i = x.descNum-1 := by omega
  rw [← ringTransfer_swept resultBus (by omega), hi]
  exact Function.update_self _ _ _

end ring

/-- The kernel has what `transfer_create` asks for a buffer from `rvmalloc`, and
maps page `i` of memory at `dma i`, one entry a page. -/
structure Platform.MapsKernel (k : Platform) (dma : Nat → U64) : Prop where
  kzallocTransfer : k.kzallocTransfer = true
  kcallocMapper : k.kcallocMapper = true
  kcallocPages : k.kcallocPages = true
  kcallocSgl : k.kcallocSgl = true
  vmallocToPage : ∀ page, k.vmallocToPage page = some false
  pciMapSg : ∀ sgl, k.pciMapSg sgl = sgl.map fun p => ⟨dma p.page+(p.offset : U64),p.length⟩

theorem Platform.ample_mapsKernel (dma : Nat → U64) : (Platform.ample dma).MapsKernel dma :=
  ⟨rfl,rfl,rfl,rfl,fun _ => rfl,fun _ => rfl⟩

def wholePage (page : Nat) : Piece := ⟨page,0,pageSize⟩

theorem pagePieces_whole (page pages : Nat) :
    pagePieces pageSize (page*pageSize) ((pages+1)*pageSize) =
      (List.range' page (pages+1)).map wholePage := by
  have hzero (page : Nat) : page*pageSize % pageSize = 0 := Nat.mul_mod_left _ _
  have hdiv (page : Nat) : page*pageSize/pageSize = page := Nat.mul_div_cancel _ pageSize_pos
  induction pages generalizing page with
  | zero =>
    rw [pagePieces_single (by simp [hzero]), hzero, hdiv]
    simp [wholePage]
  | succ pages ih =>
    have hs : (pages+1+1)*pageSize = (pages+1)*pageSize+pageSize := Nat.succ_mul _ _
    have hpos : 0 < (pages+1)*pageSize := Nat.mul_pos (Nat.succ_pos _) pageSize_pos
    have hnext : page*pageSize+(pageSize-0) = (page+1)*pageSize := (Nat.succ_mul _ _).symm
    have hrest : (pages+1+1)*pageSize-(pageSize-0) = (pages+1)*pageSize := by omega
    rw [pagePieces_cons pageSize_pos (by rw [hzero]; omega), hzero, hdiv, hnext, hrest, ih,
      List.range'_succ]
    rfl

def rxPages (start : Nat) : List Nat := List.range' (pageFirst start) rxBufPages

theorem sgmKernelPages_rxBuf {k : Platform} {dma : Nat → U64} (hk : k.MapsKernel dma) {start : Nat}
    (hs : start % pageSize = 0) (hw : start+rxBufSize < 2^64) :
    ∃ sgm sgm', sgCreateMapper k rxBufSize = some sgm ∧
      sgmKernelPages k sgm start rxBufSize = .ok (rxBufPages,sgm') ∧
      sgm'.mappedPages = rxBufPages ∧ sgm'.sgl = (rxPages start).map wholePage := by
  have hpages : touched start rxBufSize = rxBufPages := by
    unfold touched rxBufSize rxBufPages rxBufBlock pageSize at *
    omega
  have hstart : pageFirst start*pageSize = start := by
    unfold pageFirst pageSize at *
    omega
  have hwhole : pagePieces pageSize start rxBufSize = (rxPages start).map wholePage := by
    have h := pagePieces_whole (pageFirst start) (rxBufPages-1)
    rw [hstart] at h
    exact h
  obtain ⟨sgm,hcreate⟩ : ∃ sgm, sgCreateMapper k rxBufSize = some sgm := ⟨_,sgCreateMapper_some_iff.mpr
    ⟨by decide,⟨hk.kcallocMapper,hk.kcallocPages,hk.kcallocSgl⟩,rfl⟩⟩
  have hfits := sgCreateMapper_fits hcreate (by decide) (Nat.le_refl rxBufSize) (by decide) hw
  have hlists := sgmKernelPages_lists hfits fun i _ => hk.vmallocToPage (pageFirst start+i)
  rw [hpages] at hlists
  exact ⟨sgm,sgm.listing start rxBufSize,hcreate,hlists,hpages,hwhole⟩

theorem transferBlocks_forced (es : List SgEntry) (b : Block)
    (hlen : ∀ e ∈ es, e.dmaLength < 2^32) (hc : b.contLen = 0)
    (hnext : ∀ e, es.head? = some e → b.contAddr = e.dmaAddress) :
    (transferBlocks ⟨false,false,true,false⟩ es b).map (fun b => (b.contLen,b.contAddr)) =
      es.map fun e => (e.dmaLength,e.dmaAddress) := by
  have hgrow (b : Block) (entry : SgEntry) (hc : b.contLen = 0) (he : entry.dmaLength < 2^32) :
      (b.grow entry).contLen = entry.dmaLength := by
    simp only [Block.grow, hc, Nat.zero_add]
    exact Nat.mod_eq_of_lt he
  fun_induction transferBlocks ⟨false,false,true,false⟩ es b with
  | case1 b => rfl
  | case2 entry b =>
    have hcl := hgrow b entry hc (hlen entry (List.mem_cons_self ..))
    have ha : (b.grow entry).contAddr = entry.dmaAddress := hnext entry rfl
    simp [hcl, ha]
  | case3 entry next rest b b₁ hnew ih =>
    have hcl : b₁.contLen = entry.dmaLength := hgrow b entry hc (hlen entry (List.mem_cons_self ..))
    have ha : b₁.contAddr = entry.dmaAddress := hnext entry rfl
    rw [List.map_cons, List.map_cons, hcl, ha,
      ih (fun e h => hlen e (List.mem_cons_of_mem _ h)) rfl (by intro e h; cases h; rfl)]
  | case4 entry next rest b b₁ hnew ih => simp [needsNewDesc] at hnew

theorem rxEntries_get {dma : Nat → U64} {start i : Nat} (h : i < rxBufPages) :
    (((rxPages start).map wholePage).map fun p =>
      (⟨dma p.page+(p.offset : U64),p.length⟩ : SgEntry))[i]? =
      some ⟨dma (pageFirst start+i),pageSize⟩ := by
  simp [rxPages, wholePage, h]

theorem transferCreate_rxBuf {k : Platform} {dma : Nat → U64} (hk : k.MapsKernel dma) {start : Nat}
    (hs : start % pageSize = 0) (hw : start+rxBufSize < 2^64) {bus : U64} {memory : Nat → XdmaDesc}
    (halloc : k.pciAllocConsistent rxBufPages = some (bus,memory)) :
    ∃ x, transferCreate k start rxBufSize 0 ⟨false,false,true,false⟩ = .ok (some x) ∧
      x.descNum = rxBufPages ∧ x.descBus = bus ∧
      ∀ i < rxBufPages, (x.descVirt i).bytes = BitVec.ofNat 32 rxBufBlock ∧
        (x.descVirt i).dst = dma (pageFirst start+i) := by
  obtain ⟨sgm,sgm',hcreate,hpages,hmapped,hsgl⟩ := sgmKernelPages_rxBuf hk hs hw
  obtain ⟨es,hes⟩ : ∃ es, es = k.pciMapSg sgm'.sgl := ⟨_,rfl⟩
  have hmap : es = ((rxPages start).map wholePage).map fun p =>
      (⟨dma p.page+(p.offset : U64),p.length⟩ : SgEntry) := by rw [hes, hk.pciMapSg, hsgl]
  have hlen : es.length = rxBufPages := by simp [hmap, rxPages]
  have hne : es ≠ [] := by
    intro h0
    rw [h0] at hlen
    cases hlen
  have hle : ∀ e ∈ es, e.dmaLength < 2^32 := by
    intro e he
    rw [hmap] at he
    obtain ⟨p,hp,rfl⟩ := List.mem_map.mp he
    obtain ⟨page,_,rfl⟩ := List.mem_map.mp hp
    exact (by decide : pageSize < 2^32)
  have hpos : 1 ≤ es.length := by rw [hlen]; decide
  obtain ⟨d,hd,_⟩ := xdmaDescAlloc_spec hpos bus memory
  obtain ⟨last,d',hbuild,_,_⟩ := transferBuild_chain hne d 0 ⟨false,false,true,false⟩
  obtain ⟨hlast,hwritten⟩ := transferBuild_blocks hbuild
  have hforced := transferBlocks_forced es (firstBlock es 0) hle rfl (by
    intro e he
    cases es with
    | nil => cases he
    | cons entry rest =>
      cases he
      rfl)
  have hblocks := congrArg List.length hforced
  rw [List.length_map, List.length_map] at hblocks
  rw [hblocks] at hlast
  have hfill : ∀ i e, es[i]? = some e →
      (d' i).bytes = BitVec.ofNat 32 e.dmaLength ∧ (d' i).dst = e.dmaAddress := by
    intro i e hi
    have hget := congrArg (fun l => l[i]?) hforced
    simp only [List.getElem?_map, hi, Option.map_some] at hget
    obtain ⟨b,hb,heq⟩ := Option.map_eq_some_iff.mp hget
    rw [Prod.mk.injEq] at heq
    rw [hwritten i b hb, Block.write, xdmaDescSet_bytes, xdmaDescSet_dst, heq.1, heq.2]
    exact ⟨rfl,rfl⟩
  refine ⟨filledIn ⟨false,false,true,false⟩ sgm' es.length bus d' last,?_,hlast.trans hlen,rfl,?_⟩
  · have hr : (decide (((rxBufPages : Nat) : Int) < 0) || sgm'.mappedPages == 0) = false := by
      rw [hmapped]
      decide
    rw [← hlen] at halloc
    simp only [transferCreate, hk.kzallocTransfer, Bool.not_true, Bool.false_eq_true, if_false,
      hcreate, hpages, hr, ← hes, halloc, hd, hbuild]
  · intro i hi
    have hget : es[i]? = some ⟨dma (pageFirst start+i),pageSize⟩ := by
      rw [hmap]
      exact rxEntries_get hi
    have hkeep : ∀ d : Nat → XdmaDesc, (transferPerf d last i).bytes = (d i).bytes ∧
        (transferPerf d last i).dst = (d i).dst := by
      intro d
      by_cases hl : i = last
      · subst hl
        simp only [transferPerf, Function.update_self]
        exact ⟨rfl,rfl⟩
      · simp [transferPerf, Function.update_of_ne hl]
    rw [filledIn_desc _ _ _ _ _ _ (by omega)]
    obtain ⟨hb,hdst⟩ := hfill i _ hget
    exact ⟨(hkeep d').1.trans hb,(hkeep d').2.trans hdst⟩

/-- A ring of one descriptor for each page of a receive buffer, which is mapped
at `dest`, with the results behind `resultBus`. -/
structure Ring (x : XdmaTransfer) (dest : Nat → U64) (resultBus : U64) : Prop where
  cyclic : x.cyclic = true
  descNum : x.descNum = rxBufPages
  next : ∀ i < rxBufPages, (x.descVirt i).next = x.busAt ((i+1) % rxBufPages)
  bytes : ∀ i < rxBufPages, (x.descVirt i).bytes = BitVec.ofNat 32 rxBufBlock
  dst : ∀ i < rxBufPages, (x.descVirt i).dst = dest i
  src : ∀ i < rxBufPages,
    (x.descVirt i).src = resultBus+BitVec.ofNat 64 (xdmaResultSize*i)
  magic : ∀ i < rxBufPages, (x.descVirt i).magic = 0xAD4B
  eop : ∀ i < rxBufPages, (x.descVirt i).control.has xdmaDescEop = true
  completed : ∀ i < rxBufPages, (x.descVirt i).control.has xdmaDescCompleted = true
  stopped : ∀ i < rxBufPages, (x.descVirt i).control.has xdmaDescStopped = false
  block : ∀ i < rxBufPages, ∃ page, ∀ k ≤ (x.descVirt i).extraAdjacent,
    (i+1) % rxBufPages+k < rxBufPages ∧
    (x.busAt ((i+1) % rxBufPages+k)).toNat / pageSize = page ∧
    ((x.busAt ((i+1) % rxBufPages+k)).toNat+xdmaDescSize-1) / pageSize = page

theorem ringControl_fields {extra : Nat} (h : extra ≤ maxExtraAdj) (desc : XdmaDesc)
    (hc : desc.control = descMagic ||| (BitVec.ofNat 32 extra <<< 8)) (source : U64) :
    (ringDesc desc source).extraAdjacent = extra ∧ (ringDesc desc source).magic = 0xAD4B ∧
      (ringDesc desc source).control.has xdmaDescEop = true ∧
      (ringDesc desc source).control.has xdmaDescCompleted = true ∧
      (ringDesc desc source).control.has xdmaDescStopped = false := by
  simp only [ringDesc, xdmaDescControlSet, xdmaDescControlClear, xdmaDescSetSource,
    XdmaDesc.extraAdjacent, XdmaDesc.magic, hc]
  unfold maxExtraAdj at h
  interval_cases extra <;> decide

theorem ringControl_last (desc : XdmaDesc)
    (hc : desc.control = descMagic ||| (xdmaDescStopped ||| xdmaDescEop ||| xdmaDescCompleted))
    (source : U64) (bus : Option U64) :
    (xdmaDescLink (ringDesc desc source) bus).extraAdjacent = 0 ∧
      (xdmaDescLink (ringDesc desc source) bus).magic = 0xAD4B ∧
      (xdmaDescLink (ringDesc desc source) bus).control.has xdmaDescEop = true ∧
      (xdmaDescLink (ringDesc desc source) bus).control.has xdmaDescCompleted = true ∧
      (xdmaDescLink (ringDesc desc source) bus).control.has xdmaDescStopped = false := by
  cases bus <;>
    simp only [xdmaDescLink, ringDesc, xdmaDescControlSet, xdmaDescControlClear, xdmaDescSetSource,
      XdmaDesc.extraAdjacent, XdmaDesc.magic, hc] <;> decide

@[simp] theorem ringDesc_next (desc : XdmaDesc) (source : U64) :
    (ringDesc desc source).next = desc.next := rfl

@[simp] theorem ringDesc_bytes (desc : XdmaDesc) (source : U64) :
    (ringDesc desc source).bytes = desc.bytes := rfl

@[simp] theorem ringDesc_dst (desc : XdmaDesc) (source : U64) :
    (ringDesc desc source).dst = desc.dst := rfl

@[simp] theorem ringDesc_src (desc : XdmaDesc) (source : U64) :
    (ringDesc desc source).src = source := by
  simp [ringDesc, xdmaDescControlSet, xdmaDescControlClear, xdmaDescSetSource, XdmaDesc.src]

@[simp] theorem xdmaDescLink_bytes (desc : XdmaDesc) (bus : Option U64) :
    (xdmaDescLink desc bus).bytes = desc.bytes := by cases bus <;> rfl

@[simp] theorem xdmaDescLink_dst (desc : XdmaDesc) (bus : Option U64) :
    (xdmaDescLink desc bus).dst = desc.dst := by cases bus <;> rfl

@[simp] theorem xdmaDescLink_src (desc : XdmaDesc) (bus : Option U64) :
    (xdmaDescLink desc bus).src = desc.src := by cases bus <;> rfl

theorem ringTransfer_ring {x : XdmaTransfer} (hx : Linked x) (hnum : x.descNum = rxBufPages)
    (hp : x.descBus.toNat % pageSize = 0) (hl : x.descBus.toNat < 2^32) {dest : Nat → U64}
    (hfill : ∀ i < rxBufPages, (x.descVirt i).bytes = BitVec.ofNat 32 rxBufBlock ∧
      (x.descVirt i).dst = dest i) (resultBus : U64) :
    Ring (ringTransfer x resultBus) dest resultBus := by
  have hcases : ∀ i < rxBufPages, (i+1 < x.descNum ∧ (i+1) % rxBufPages = i+1) ∨
      (i+1 = x.descNum ∧ (i+1) % rxBufPages = 0) := by
    intro i hi
    rcases Nat.lt_or_eq_of_le (Nat.succ_le_of_lt hi) with h | h
    · exact Or.inl ⟨by omega,Nat.mod_eq_of_lt h⟩
    · have hend : i+1 = rxBufPages := h
      exact Or.inr ⟨by omega,by rw [hend, Nat.mod_self]⟩
  have hlast : ∀ i, i+1 = x.descNum → (x.descVirt i).control =
      descMagic ||| (xdmaDescStopped ||| xdmaDescEop ||| xdmaDescCompleted) := by
    intro i hi
    have hidx : i = x.descNum-1 := by omega
    rw [hidx]
    exact hx.lastControl
  have hfields : ∀ i < rxBufPages,
      ((ringTransfer x resultBus).descVirt i).magic = 0xAD4B ∧
      ((ringTransfer x resultBus).descVirt i).control.has xdmaDescEop = true ∧
      ((ringTransfer x resultBus).descVirt i).control.has xdmaDescCompleted = true ∧
      ((ringTransfer x resultBus).descVirt i).control.has xdmaDescStopped = false := by
    intro i hi
    rcases hcases i hi with ⟨hin,_⟩ | ⟨hend,_⟩
    · rw [ringTransfer_inner resultBus hin]
      exact (ringControl_fields (extraAt_le x i) _ (hx.innerControl i hin) _).2
    · rw [ringTransfer_last resultBus hend]
      exact (ringControl_last _ (hlast i hend) _ _).2
  refine ⟨rfl,hnum,?_,?_,?_,?_,fun i hi => (hfields i hi).1,fun i hi => (hfields i hi).2.1,
    fun i hi => (hfields i hi).2.2.1,fun i hi => (hfields i hi).2.2.2,?_⟩
  · intro i hi
    rcases hcases i hi with ⟨hin,hmod⟩ | ⟨hend,hmod⟩
    · rw [ringTransfer_inner resultBus hin, hmod, ringDesc_next]
      exact hx.innerNext i hin
    · rw [ringTransfer_last resultBus hend, hmod, xdmaDescLink_some_next, ringTransfer_busAt,
        busAt_zero]
  · intro i hi
    rcases hcases i hi with ⟨hin,_⟩ | ⟨hend,_⟩
    · rw [ringTransfer_inner resultBus hin, ringDesc_bytes]
      exact (hfill i hi).1
    · rw [ringTransfer_last resultBus hend, xdmaDescLink_bytes, ringDesc_bytes]
      exact (hfill i hi).1
  · intro i hi
    rcases hcases i hi with ⟨hin,_⟩ | ⟨hend,_⟩
    · rw [ringTransfer_inner resultBus hin, ringDesc_dst]
      exact (hfill i hi).2
    · rw [ringTransfer_last resultBus hend, xdmaDescLink_dst, ringDesc_dst]
      exact (hfill i hi).2
  · intro i hi
    rcases hcases i hi with ⟨hin,_⟩ | ⟨hend,_⟩
    · rw [ringTransfer_inner resultBus hin, ringDesc_src]
    · rw [ringTransfer_last resultBus hend, xdmaDescLink_src, ringDesc_src]
  · intro i hi
    rcases hcases i hi with ⟨hin,hmod⟩ | ⟨hend,hmod⟩
    · -- the adjacent count was cut to the page and to the list when it was filled in
      have hextra : ((ringTransfer x resultBus).descVirt i).extraAdjacent = extraAt x i := by
        rw [ringTransfer_inner resultBus hin]
        exact (ringControl_fields (extraAt_le x i) _ (hx.innerControl i hin) _).1
      have hsize := extraAt_eq hx hp hl hin
      have hfits := (blockSize_fits x.descNum (i+1) hin).2
      refine ⟨(x.busAt (i+1)).toNat / pageSize,fun k hk => ?_⟩
      rw [hextra] at hk
      rw [hmod]
      have hmem : i+1+k ∈ List.range' (i+1) (blockSize x.descNum (i+1)) := by
        rw [← hsize, List.mem_range'_1]
        omega
      exact ⟨by omega,block_inPage hx hp hl hin hmem⟩
    · have hextra : ((ringTransfer x resultBus).descVirt i).extraAdjacent = 0 := by
        rw [ringTransfer_last resultBus hend]
        exact (ringControl_last _ (hlast i hend) _ _).1
      have hpos : 0 < x.descNum := by omega
      have hsize : 0 < blockSize x.descNum 0 := by
        unfold blockSize
        omega
      refine ⟨(x.busAt 0).toNat / pageSize,fun k hk => ?_⟩
      rw [hextra, Nat.le_zero] at hk
      subst hk
      rw [hmod]
      have hmem : 0 ∈ List.range' 0 (blockSize x.descNum 0) := by
        rw [List.mem_range'_1]
        omega
      exact ⟨by decide,block_inPage hx hp hl hpos hmem⟩

/-- Following next pointers from the first descriptor goes round the ring. -/
theorem Ring.follow {x : XdmaTransfer} {dest : Nat → U64} {resultBus : U64}
    (h : Ring x dest resultBus) {memory : U64 → XdmaDesc}
    (hm : ∀ i < rxBufPages, memory (x.busAt i) = x.descVirt i) (n : Nat) :
    (fun addr => (memory addr).next)^[n] x.descBus = x.busAt (n % rxBufPages) := by
  rw [← busAt_zero x]
  refine Circular.iterate_round (by decide) (fun i hi => ?_) n
  rw [hm i hi, h.next i hi]

end DmaCamera
