import DmaCamera.Descriptor
import DmaCamera.Library.Spans
set_option autoImplicit false

namespace DmaCamera
open Spans

structure SgEntry where
  dmaAddress : U64
  dmaLength : Nat
  deriving DecidableEq, Repr

def dmaMaxSegSize : Nat := 65536

/-- What the kernel answers to the requests of one `transfer_create`. -/
structure Platform where
  kzallocTransfer : Bool
  kcallocMapper : Bool
  kcallocPages : Bool
  kcallocSgl : Bool
  /-- Pages pinned of `nr_pages` from `start` on, or a negative error. -/
  getUserPagesFast : Nat → Nat → Int
  /-- The page behind a vmalloc()ed page number, if any, and whether it is high memory. -/
  vmallocToPage : Nat → Option Bool
  pciMapSg : List Piece → List SgEntry
  /-- The mapping layer may merge entries, it never adds any. -/
  pciMapSg_length : ∀ sgl, (pciMapSg sgl).length ≤ sgl.length
  pciAllocConsistent : Nat → Option (U64 × (Nat → XdmaDesc))

/-- The requests `transfer_create` makes of the kernel are met, and page `i` of
the buffer is mapped at `dma i`, entry by entry. -/
structure Platform.Maps (k : Platform) (dma : Nat → U64) : Prop where
  kzallocTransfer : k.kzallocTransfer = true
  kcallocMapper : k.kcallocMapper = true
  kcallocPages : k.kcallocPages = true
  kcallocSgl : k.kcallocSgl = true
  getUserPagesFast : ∀ start nr, k.getUserPagesFast start nr = nr
  pciMapSg : ∀ sgl, k.pciMapSg sgl = sgl.map fun p => ⟨dma p.page+(p.offset : U64),p.length⟩
  pciAllocConsistent : ∀ number, ∃ alloc, k.pciAllocConsistent number = some alloc

def Platform.ample (dma : Nat → U64) : Platform where
  kzallocTransfer := true
  kcallocMapper := true
  kcallocPages := true
  kcallocSgl := true
  getUserPagesFast := fun _ nr => nr
  vmallocToPage := fun _ => some false
  pciMapSg := fun sgl => sgl.map fun p => ⟨dma p.page+(p.offset : U64),p.length⟩
  pciMapSg_length := fun sgl => by simp
  pciAllocConsistent := fun _ => some (0x10000,default)

theorem Platform.ample_maps (dma : Nat → U64) : (Platform.ample dma).Maps dma :=
  ⟨rfl,rfl,rfl,rfl,fun _ _ => rfl,fun _ => rfl,fun _ => ⟨_,rfl⟩⟩

structure SgMapping where
  sgl : List Piece
  maxPages : Int
  mappedPages : Nat

def sgCreateMapper (k : Platform) (maxLen : Nat) : Option SgMapping :=
  if maxLen = 0 then none
  else if !k.kcallocMapper then none
  else if !k.kcallocPages then none
  else if !k.kcallocSgl then none
  else some ⟨[], Int.bmod ((maxLen/pageSize : Nat)+2) (2^32), 0⟩

def pageFirst (start : Nat) : Nat := start / pageSize
def pageLast (start count : Nat) : Nat := (((start : Int)+count-1) % 2^64).toNat / pageSize
def nrPages (start count : Nat) : Int :=
  Int.bmod ((pageLast start count : Int) - pageFirst start + 1) (2^32)

def sgPopulateRest (site : BugSite) : Nat → Nat → Nat → Except Fault (List Piece)
  | 0, page, count =>
    if count > pageSize then .error (.bug site) else .ok [⟨page,0,count⟩]
  | middle+1, page, count =>
    if count < pageSize then .error (.bug site) else
      (sgPopulateRest site middle (page+1) (count-pageSize)).map (⟨page,0,pageSize⟩ :: ·)

def sgPopulate (site : BugSite) (start count nr : Nat) : Except Fault (List Piece) :=
  let offset := start % pageSize
  if nr > 1 then
    let length := pageSize-offset
    let count := (count+2^64-length) % 2^64
    (sgPopulateRest site (nr-2) (pageFirst start+1) count).map (⟨pageFirst start,offset,length⟩ :: ·)
  else .ok [⟨pageFirst start,offset,count⟩]

/-- The checks before any page is looked up: `some rc` returns early. -/
def sgRangeCheck (sgm : SgMapping) (start count : Nat) : Option Int :=
  if (start+count) % 2^64 < start then some (-eInval)
  else if nrPages start count > sgm.maxPages then some (-eInval)
  else if count = 0 then some 0
  else none

/-- On a short pin the pages got are put back and no page stays mapped. -/
def sgmGetUserPages (k : Platform) (sgm : SgMapping) (start count : Nat) :
    Except Fault (Int × SgMapping) :=
  if sgm.mappedPages > 0 then .error (.bug .sgmGetUserPages) else
    match sgRangeCheck sgm start count with
    | some rc => .ok (rc,sgm)
    | none =>
      let nr := nrPages start count
      let rc := k.getUserPagesFast start nr.toNat
      if rc < nr then .ok (-eNoMem,{ sgm with mappedPages := 0 })
      else if rc ≠ nr then .error (.bug .sgmGetUserPages)
      else match sgPopulate .sgmGetUserPages start count nr.toNat with
        | .error f => .error f
        | .ok sgl => .ok (nr,{ sgm with sgl := sgl, mappedPages := rc.toNat })

def vmallocPages (k : Platform) : Nat → Nat → Except Fault (Option Unit)
  | _, 0 => .ok (some ())
  | page, nr+1 =>
    match k.vmallocToPage page with
    | none => .ok none
    | some true => .error (.bug .sgmKernelPages)
    | some false => vmallocPages k (page+1) nr

def sgmKernelPages (k : Platform) (sgm : SgMapping) (start count : Nat) :
    Except Fault (Int × SgMapping) :=
  if sgm.mappedPages > 0 then .error (.bug .sgmKernelPages) else
    match sgRangeCheck sgm start count with
    | some rc => .ok (rc,sgm)
    | none =>
      let nr := nrPages start count
      match vmallocPages k (pageFirst start) nr.toNat with
      | .error f => .error f
      | .ok none => .ok (-eNoMem,{ sgm with mappedPages := 0 })
      | .ok (some ()) =>
        match sgPopulate .sgmKernelPages start count nr.toNat with
        | .error f => .error f
        | .ok sgl => .ok (nr,{ sgm with sgl := sgl, mappedPages := nr.toNat })

theorem sgCreateMapper_some_iff {k : Platform} {n : Nat} {sgm : SgMapping} :
    sgCreateMapper k n = some sgm ↔ 1 ≤ n ∧
      (k.kcallocMapper = true ∧ k.kcallocPages = true ∧ k.kcallocSgl = true) ∧
      sgm = ⟨[],Int.bmod ((n/pageSize : Nat)+2) (2^32),0⟩ := by
  unfold sgCreateMapper
  constructor
  · intro h
    repeat' split at h
    all_goals cases h
    rename_i h0 h1 h2 h3
    simp only [Bool.not_eq_true, Bool.not_eq_false'] at h1 h2 h3
    exact ⟨Nat.pos_of_ne_zero h0,⟨h1,h2,h3⟩,rfl⟩
  · rintro ⟨hn,⟨h1,h2,h3⟩,rfl⟩
    have h0 : n ≠ 0 := by omega
    simp [h0, h1, h2, h3]

theorem sgRangeCheck_none_iff {sgm : SgMapping} {start cnt : Nat} :
    sgRangeCheck sgm start cnt = none ↔
      start ≤ (start+cnt) % 2^64 ∧ nrPages start cnt ≤ sgm.maxPages ∧ cnt ≠ 0 := by
  unfold sgRangeCheck
  constructor
  · intro h
    split at h
    · cases h
    · rename_i hwrap
      split at h
      · cases h
      · rename_i hfit
        split at h
        · cases h
        · rename_i hzero
          exact ⟨Nat.le_of_not_lt hwrap,Int.not_lt.mp hfit,hzero⟩
  · rintro ⟨hwrap,hfit,hzero⟩
    rw [if_neg (Nat.not_lt.mpr hwrap), if_neg (Int.not_lt.mpr hfit), if_neg hzero]

theorem pageSize_pos : 0 < pageSize := by decide

theorem sgPopulateRest_pagePieces (site : BugSite) (middle page count : Nat)
    (hlo : middle*pageSize < count) (hhi : count ≤ (middle+1)*pageSize) :
    sgPopulateRest site middle page count = .ok (pagePieces pageSize (page*pageSize) count) := by
  have hzero : page*pageSize % pageSize = 0 := Nat.mul_mod_left _ _
  have hdiv : page*pageSize/pageSize = page := Nat.mul_div_cancel _ pageSize_pos
  induction middle generalizing page count with
  | zero =>
    have hle : count ≤ pageSize := by omega
    rw [pagePieces_single (by omega), hzero, hdiv, sgPopulateRest, if_neg (Nat.not_lt_of_le hle)]
  | succ middle ih =>
    have hs1 : (middle+1)*pageSize = middle*pageSize+pageSize := Nat.succ_mul _ _
    have hs2 : (middle+1+1)*pageSize = (middle+1)*pageSize+pageSize := Nat.succ_mul _ _
    have hnext : page*pageSize+(pageSize-0) = (page+1)*pageSize := (Nat.succ_mul _ _).symm
    have hn : ¬ count < pageSize := by omega
    have hps := ih (page+1) (count-pageSize) (by omega) (by omega) (Nat.mul_mod_left _ _)
      (Nat.mul_div_cancel _ pageSize_pos)
    have hover : pageSize < page*pageSize % pageSize+count := by
      have hpos : 0 ≤ middle*pageSize := Nat.zero_le _
      rw [hzero]
      omega
    rw [pagePieces_cons pageSize_pos hover, hzero, hdiv, hnext, sgPopulateRest, if_neg hn,
      Nat.sub_zero, hps]
    rfl

def touched (start count : Nat) : Nat := (start % pageSize + count - 1) / pageSize + 1

theorem bmod_word {n : Nat} (h : n < 2^31) : Int.bmod (n : Int) (2^32) = n := by
  rw [Int.bmod_eq_of_le] <;> omega

theorem touched_le_max (start count : Nat) : touched start count ≤ count/pageSize+2 := by
  have hoff : start % pageSize < pageSize := Nat.mod_lt _ pageSize_pos
  unfold touched pageSize at *
  omega

theorem nrPages_touched {start count : Nat} (h1 : 1 ≤ count) (hc : count/pageSize+2 < 2^31)
    (hs : start+count < 2^64) : nrPages start count = touched start count := by
  have hm : (((start : Int)+count-1) % 2^64).toNat = start+count-1 := by omega
  have ht : touched start count < 2^31 := Nat.lt_of_le_of_lt (touched_le_max start count) hc
  have hv : ((pageLast start count : Int) - pageFirst start + 1) = (touched start count : Nat) := by
    unfold pageLast pageFirst touched
    rw [hm]
    unfold pageSize
    omega
  rw [nrPages, hv, bmod_word ht]

theorem fewPages_of_le {count : Nat} (hc : count ≤ xdmaTransferMaxBytes) :
    count/pageSize+2 < 2^31 := by
  unfold pageSize xdmaTransferMaxBytes at *
  omega

theorem sgPopulate_pagePieces (site : BugSite) {start count : Nat} (h1 : 1 ≤ count)
    (hc : count < 2^64) :
    sgPopulate site start count (touched start count) = .ok (pagePieces pageSize start count) := by
  have hoff : start % pageSize < pageSize := Nat.mod_lt _ pageSize_pos
  by_cases hn : touched start count > 1
  · have hlen : pageSize < start % pageSize+count := by
      unfold touched at hn
      unfold pageSize at *
      omega
    have hcnt : (count+2^64-(pageSize-start % pageSize)) % 2^64 =
        count-(pageSize-start % pageSize) := by omega
    have hnext : start+(pageSize-start % pageSize) = (pageFirst start+1)*pageSize := by
      unfold pageFirst pageSize at *; omega
    have hps := sgPopulateRest_pagePieces site (touched start count-2) (pageFirst start+1)
      (count-(pageSize-start % pageSize))
      (by unfold touched pageSize at *; omega) (by unfold touched pageSize at *; omega)
    rw [pagePieces_cons pageSize_pos hlen, hnext]
    simp only [sgPopulate, if_pos hn, hcnt, hps, Except.map]
    rfl
  · have hfit : start % pageSize+count ≤ pageSize := by
      unfold touched at hn
      unfold pageSize at *
      omega
    rw [pagePieces_single hfit, sgPopulate]
    exact if_neg hn

structure SgMapping.Fits (sgm : SgMapping) (start count : Nat) : Prop where
  free : sgm.mappedPages = 0
  nonempty : 1 ≤ count
  noWrap : start+count < 2^64
  fewPages : count/pageSize+2 < 2^31
  room : (touched start count : Int) ≤ sgm.maxPages

def SgMapping.listing (sgm : SgMapping) (start count : Nat) : SgMapping :=
  { sgm with sgl := pagePieces pageSize start count, mappedPages := touched start count }

section fits

variable {k : Platform} {sgm : SgMapping} {start count : Nat}

theorem SgMapping.Fits.pages (h : sgm.Fits start count) : nrPages start count = touched start count :=
  nrPages_touched h.nonempty h.fewPages h.noWrap

theorem SgMapping.Fits.inRange (h : sgm.Fits start count) : sgRangeCheck sgm start count = none := by
  have hwrap := h.noWrap
  refine sgRangeCheck_none_iff.mpr ⟨by omega,?_,Nat.ne_of_gt h.nonempty⟩
  rw [h.pages]
  exact h.room

theorem SgMapping.Fits.populated (h : sgm.Fits start count) (site : BugSite) :
    sgPopulate site start count (touched start count) = .ok (pagePieces pageSize start count) :=
  sgPopulate_pagePieces site h.nonempty (Nat.lt_of_le_of_lt (Nat.le_add_left _ _) h.noWrap)

theorem vmallocPages_ok_iff {page nr : Nat} :
    vmallocPages k page nr = .ok (some ()) ↔ ∀ i, i < nr → k.vmallocToPage (page+i) = some false := by
  induction nr generalizing page with
  | zero => simp [vmallocPages]
  | succ nr ih =>
    rw [Nat.forall_lt_succ_left, vmallocPages, Nat.add_zero]
    simp only [Nat.add_left_comm page]
    cases hp : k.vmallocToPage page with
    | none => simp
    | some high =>
      cases high with
      | true => simp
      | false => simp only [ih, true_and, Nat.add_comm, Nat.add_left_comm]

/-- With all pages pinned, resp. found, either mapper makes the list of the buffer. -/
theorem sgmGetUserPages_lists (h : sgm.Fits start count)
    (hpinned : k.getUserPagesFast start (touched start count) = touched start count) :
    sgmGetUserPages k sgm start count = .ok (touched start count,sgm.listing start count) := by
  simp only [sgmGetUserPages, h.free, h.inRange, h.pages, Int.toNat_natCast, hpinned, h.populated,
    gt_iff_lt, Nat.lt_irrefl, Int.lt_irrefl, if_false, ne_eq, not_true_eq_false]
  rfl

theorem sgmKernelPages_lists (h : sgm.Fits start count)
    (hbacked : ∀ i, i < touched start count → k.vmallocToPage (pageFirst start+i) = some false) :
    sgmKernelPages k sgm start count = .ok (touched start count,sgm.listing start count) := by
  have hback := vmallocPages_ok_iff.mpr hbacked
  simp only [sgmKernelPages, h.free, h.inRange, h.pages, Int.toNat_natCast, hback, h.populated,
    gt_iff_lt, Nat.lt_irrefl, if_false]
  rfl

end fits

theorem sgPopulateRest_length {site : BugSite} {middle page count : Nat} {ps : List Piece}
    (h : sgPopulateRest site middle page count = .ok ps) : ps.length = middle+1 := by
  induction middle generalizing page count ps with
  | zero =>
    simp only [sgPopulateRest] at h
    split at h
    · cases h
    · cases h; rfl
  | succ middle ih =>
    simp only [sgPopulateRest] at h
    split at h
    · cases h
    · cases hr : sgPopulateRest site middle (page+1) (count-pageSize) with
      | error f => simp [hr, Except.map] at h
      | ok rest =>
        simp only [hr, Except.map, Except.ok.injEq] at h
        subst h
        simp [ih hr]

theorem sgPopulate_length {site : BugSite} {start count nr : Nat} {ps : List Piece}
    (h : sgPopulate site start count nr = .ok ps) : ps.length ≤ max nr 1 := by
  unfold sgPopulate at h
  simp only at h
  split at h
  · cases hr : sgPopulateRest site (nr-2) (pageFirst start+1)
      ((count+2^64-(pageSize-start % pageSize)) % 2^64) with
    | error f => simp only [hr, Except.map, reduceCtorEq] at h
    | ok rest =>
      have hl := sgPopulateRest_length hr
      simp only [hr, Except.map, Except.ok.injEq] at h
      subst h
      simp only [List.length_cons]
      omega
  · cases h
    simp

theorem nrPages_lt (start count : Nat) : nrPages start count < 2^31 := by
  have h : nrPages start count < ((2^32+1)/2 : Int) := Int.bmod_lt (by decide)
  omega

theorem sgmGetUserPages_length {k : Platform} {sgm sgm' : SgMapping} {start count : Nat} {rc : Int}
    (hs : sgm.sgl = []) (h : sgmGetUserPages k sgm start count = .ok (rc,sgm')) :
    sgm'.sgl.length < 2^31 := by
  have hnr := nrPages_lt start count
  unfold sgmGetUserPages at h
  split at h
  · cases h
  · split at h
    · cases h; simp [hs]
    · simp only at h
      split at h
      · cases h; simp [hs]
      · split at h
        · cases h
        · split at h
          · cases h
          · rename_i sgl hp
            have hl := sgPopulate_length hp
            cases h
            simp only
            omega

theorem sgmKernelPages_length {k : Platform} {sgm sgm' : SgMapping} {start count : Nat} {rc : Int}
    (hs : sgm.sgl = []) (h : sgmKernelPages k sgm start count = .ok (rc,sgm')) :
    sgm'.sgl.length < 2^31 := by
  have hnr := nrPages_lt start count
  unfold sgmKernelPages at h
  split at h
  · cases h
  · split at h
    · cases h; simp [hs]
    · simp only at h
      split at h
      · cases h
      · cases h; simp [hs]
      · split at h
        · cases h
        · rename_i sgl hp
          have hl := sgPopulate_length hp
          cases h
          simp only
          omega

theorem sgCreateMapper_pages {count : Nat} (hc : count/pageSize+2 < 2^31) :
    Int.bmod ((count/pageSize : Nat)+2) (2^32) = ((count/pageSize+2 : Nat) : Int) := by
  have h := bmod_word hc
  push_cast at h ⊢
  exact h

theorem sgCreateMapper_fits {k : Platform} {sgm : SgMapping} {maxLen start count : Nat}
    (h : sgCreateMapper k maxLen = some sgm) (h1 : 1 ≤ count) (hc : count ≤ maxLen)
    (hfew : maxLen/pageSize+2 < 2^31) (hs : start+count < 2^64) : sgm.Fits start count := by
  obtain ⟨_,_,rfl⟩ := sgCreateMapper_some_iff.mp h
  have hle : count/pageSize+2 ≤ maxLen/pageSize+2 :=
    Nat.add_le_add_right (Nat.div_le_div_right hc) 2
  refine ⟨rfl,h1,hs,Nat.lt_of_le_of_lt hle hfew,?_⟩
  rw [sgCreateMapper_pages hfew]
  exact Int.ofNat_le.mpr (Nat.le_trans (touched_le_max start count) hle)

theorem sgCreateMapper_max {count : Nat} (hc : count ≤ xdmaTransferMaxBytes) :
    Int.bmod ((count/pageSize : Nat)+2) (2^32) = ((count/pageSize+2 : Nat) : Int) :=
  sgCreateMapper_pages (fewPages_of_le hc)

end DmaCamera
