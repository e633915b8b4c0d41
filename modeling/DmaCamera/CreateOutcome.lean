import DmaCamera.Fetch
import DmaCamera.TransferData
import DmaCamera.Library.Ledger
set_option autoImplicit false

namespace DmaCamera
open Ledger Ledger.Event Spans

inductive Held where
  | transfer | mapper | pageArray | sgl
  | page (i : Nat)
  | mapping | descriptors
  deriving DecidableEq, Repr

/-- A mapper that cannot be completed frees the parts it has. -/
def sgCreateMapperEvents (k : Platform) (maxLen : Nat) : List (Event Held) :=
  if maxLen = 0 then []
  else if !k.kcallocMapper then []
  else if !k.kcallocPages then [acquire .mapper,release .mapper]
  else if !k.kcallocSgl then
    [acquire .mapper,acquire .pageArray,release .pageArray,release .mapper]
  else [acquire .mapper,acquire .pageArray,acquire .sgl]

def pagesHeld (n : Nat) : List Held := (List.range n).map .page

/-- The pages of a short pin are put back at `out_unmap`. -/
def sgmGetUserPagesEvents (k : Platform) (sgm : SgMapping) (start count : Nat) :
    List (Event Held) :=
  match sgRangeCheck sgm start count with
  | some _ => []
  | none =>
    let nr := nrPages start count
    let rc := k.getUserPagesFast start nr.toNat
    (pagesHeld rc.toNat).map acquire ++ if rc < nr then (pagesHeld rc.toNat).map release else []

/-- A call that does not come back has done the part before its fault. -/
def transferCreateEvents (k : Platform) (start cnt : Nat) (m : BuildMode) : List (Event Held) :=
  if !k.kzallocTransfer then [] else
    acquire .transfer :: (sgCreateMapperEvents k cnt ++
      match sgCreateMapper k cnt with
      | none => []
      | some sgm =>
        -- vmalloc_to_page takes no reference
        (if m.userspace then sgmGetUserPagesEvents k sgm start cnt else []) ++
          match (if m.userspace then sgmGetUserPages k sgm start cnt
            else sgmKernelPages k sgm start cnt) with
          | .error _ => []
          | .ok (rc,sgm) =>
            if rc < 0 || sgm.mappedPages == 0 then [] else
              let sgl := k.pciMapSg sgm.sgl
              if sgl.length < 1 then [] else
                acquire .mapping ::
                  if (k.pciAllocConsistent sgl.length).isSome then [acquire .descriptors] else [])

def transferDestroyEvents (x : XdmaTransfer) : List (Event Held) :=
  (match x.sgm with
    | none => []
    | some sgm =>
      release .mapping ::
        ((if x.userspace then (pagesHeld sgm.mappedPages).map release else []) ++
          [release .sgl,release .pageArray,release .mapper])) ++
    [release .descriptors,release .transfer]

/-- The whole buffer is in the scatterlist, its mapping is in the descriptors, they
are chained, and `transfer_destroy` has exactly what was taken to give back. -/
structure Complete (k : Platform) (start cnt : Nat) (ep : U64) (m : BuildMode)
    (x : XdmaTransfer) : Prop where
  dirToDev : x.dirToDev = m.dirToDev
  userspace : x.userspace = m.userspace
  linked : Linked x
  fits : x.descNum ≤ x.sglNents
  mapped : ∃ sgm, x.sgm = some sgm ∧ Tiles pageSize start cnt sgm.sgl ∧
    x.sglNents = (k.pciMapSg sgm.sgl).length ∧
    (m.nonIncrAddr = false → (∀ e ∈ k.pciMapSg sgm.sgl, e.dmaLength ≤ dmaMaxSegSize) →
      x.expand = (weave (entryPieces (k.pciMapSg sgm.sgl)) ep).map (ends m.dirToDev))
  owned : ∀ r, balance r (transferCreateEvents k start cnt m ++ transferDestroyEvents x) = some 0

structure CreatesOrFails (k : Platform) (start cnt : Nat) (ep : U64) (m : BuildMode) : Prop where
  creates : ∃ created, transferCreate k start cnt ep m = .ok created ∧
    (created = none → ∀ r, balance r (transferCreateEvents k start cnt m) = some 0) ∧
    ∀ x, created = some x → Complete k start cnt ep m x
  reports : m.userspace = true → k.getUserPagesFast start (touched start cnt) < touched start cnt →
    ∀ (env : Nat → ChunkEnv) (i : Nat) (s : DataState), (env i).kernel = k → s.res = 0 →
      0 < s.remaining → s.transferAddr = start → chunkLength s.remaining = cnt →
      BitVec.ofInt 64 s.pos = ep →
      ∃ s', transferDataLoop m env i s = .ok s' ∧ s'.res = -eIo ∧ s'.built = s.built

/-- The kernel grants all that a transfer of the buffer needs, and the buffer lies in
the address space with fewer pages than an `int` can count. -/
structure Granted (k : Platform) (start cnt : Nat) (m : BuildMode) : Prop where
  nonempty : 1 ≤ cnt
  noWrap : start+cnt < 2^64
  fewPages : cnt/pageSize+2 < 2^31
  mapper : k.kcallocMapper = true ∧ k.kcallocPages = true ∧ k.kcallocSgl = true
  pinned : m.userspace = true →
    k.getUserPagesFast start (touched start cnt) = touched start cnt
  backed : m.userspace = false →
    ∀ i, i < touched start cnt → k.vmallocToPage (pageFirst start+i) = some false
  mapped : k.pciMapSg (pagePieces pageSize start cnt) ≠ []
  descriptors : (k.pciAllocConsistent
    (k.pciMapSg (pagePieces pageSize start cnt)).length).isSome = true

section create

variable {k : Platform} {start cnt : Nat} {ep : U64} {m : BuildMode}

theorem sgCreateMapperEvents_settled (h : sgCreateMapper k cnt = none) (r : Held) :
    balance r (sgCreateMapperEvents k cnt) = some 0 := by
  unfold sgCreateMapper at h
  unfold sgCreateMapperEvents
  split
  · rfl
  · split
    · rfl
    · split
      · exact balance_returned r (List.nodup_singleton Held.mapper) (List.Perm.refl _)
      · split
        · have hnodup : [Held.mapper,.pageArray].Nodup := by decide
          exact balance_returned r hnodup (List.Perm.swap _ _ _)
        · simp_all

theorem pagesHeld_nodup (n : Nat) : (pagesHeld n).Nodup :=
  List.Nodup.map (fun i j h => by cases h; rfl) List.nodup_range

theorem sgmGetUserPagesEvents_settled {sgm sgm' : SgMapping} {rc : Int}
    (h : sgmGetUserPages k sgm start cnt = .ok (rc,sgm')) (hrc : rc < 0) (r : Held) :
    balance r (sgmGetUserPagesEvents k sgm start cnt) = some 0 := by
  unfold sgmGetUserPages at h
  unfold sgmGetUserPagesEvents
  split at h
  · cases h
  · cases hrange : sgRangeCheck sgm start cnt with
    | some code => rfl
    | none =>
      rw [hrange] at h
      dsimp only at h ⊢
      split at h
      · rename_i hshort
        rw [if_pos hshort]
        exact balance_returned r (pagesHeld_nodup _) (List.Perm.refl _)
      · split at h
        · cases h
        · rename_i hshort heq
          rw [not_not] at heq
          split at h
          · cases h
          · cases h
            rw [heq, Int.toNat_of_nonpos (Int.le_of_lt hrc)]
            simp [pagesHeld]

structure Listed (site : BugSite) (sgm₀ sgm : SgMapping) (start cnt nr : Nat) : Prop where
  inRange : sgRangeCheck sgm₀ start cnt = none
  counted : nrPages start cnt = nr
  nonempty : 1 ≤ nr
  populated : sgPopulate site start cnt nr = .ok sgm.sgl
  mappedPages : sgm.mappedPages = nr

theorem sgmGetUserPages_listed {sgm₀ sgm : SgMapping} {rc : Int}
    (h : sgmGetUserPages k sgm₀ start cnt = .ok (rc,sgm)) (hz : sgm₀.mappedPages = 0)
    (hm : sgm.mappedPages ≠ 0) :
    ∃ nr, Listed .sgmGetUserPages sgm₀ sgm start cnt nr ∧ k.getUserPagesFast start nr = nr := by
  unfold sgmGetUserPages at h
  split at h
  · cases h
  · split at h
    · cases h
      exact absurd hz hm
    · rename_i hrange
      dsimp only at h
      split at h
      · cases h
        exact absurd rfl hm
      · split at h
        · cases h
        · rename_i heq
          rw [not_not] at heq
          split at h
          · cases h
          · rename_i sgl hpop
            cases h
            rw [heq] at hm
            have hnr : ((nrPages start cnt).toNat : Int) = nrPages start cnt := by
              dsimp only at hm
              omega
            refine ⟨(nrPages start cnt).toNat,⟨hrange,hnr.symm,Nat.pos_of_ne_zero hm,hpop,?_⟩,?_⟩
            · dsimp only
              rw [heq]
            · rw [heq, hnr]

theorem sgmKernelPages_listed {sgm₀ sgm : SgMapping} {rc : Int}
    (h : sgmKernelPages k sgm₀ start cnt = .ok (rc,sgm)) (hz : sgm₀.mappedPages = 0)
    (hm : sgm.mappedPages ≠ 0) :
    ∃ nr, Listed .sgmKernelPages sgm₀ sgm start cnt nr ∧
      ∀ i, i < nr → k.vmallocToPage (pageFirst start+i) = some false := by
  unfold sgmKernelPages at h
  split at h
  · cases h
  · split at h
    · cases h
      exact absurd hz hm
    · rename_i hrange
      dsimp only at h
      split at h
      · cases h
      · cases h
        exact absurd rfl hm
      · rename_i hpages
        split at h
        · cases h
        · rename_i sgl hpop
          cases h
          have hnr : ((nrPages start cnt).toNat : Int) = nrPages start cnt := by
            dsimp only at hm
            omega
          exact ⟨(nrPages start cnt).toNat,
            ⟨hrange,hnr.symm,Nat.pos_of_ne_zero hm,hpop,rfl⟩,vmallocPages_ok_iff.mp hpages⟩

theorem Listed.pages {site : BugSite} {sgm₀ sgm : SgMapping} {nr : Nat}
    (h : Listed site sgm₀ sgm start cnt nr) (hc : cnt < 2^64) (hfew : cnt/pageSize+2 < 2^31) :
    start+cnt < 2^64 ∧ nr = touched start cnt ∧ sgm.sgl = pagePieces pageSize start cnt := by
  obtain ⟨hwrap,_,hzero⟩ := sgRangeCheck_none_iff.mp h.inRange
  have hnowrap : start+cnt < 2^64 := by omega
  have htouched : nr = touched start cnt := by
    have hn := nrPages_touched (Nat.pos_of_ne_zero hzero) hfew hnowrap
    have hcounted := h.counted
    omega
  have hpop := h.populated
  rw [htouched, sgPopulate_pagePieces site (Nat.pos_of_ne_zero hzero) hc] at hpop
  exact ⟨hnowrap,htouched,(Except.ok.inj hpop).symm⟩

/-- A list that tiles the buffer is not longer than the `int` that counts its pages. -/
theorem Listed.fewPages {site : BugSite} {sgm₀ sgm : SgMapping} {nr : Nat}
    (h : Listed site sgm₀ sgm start cnt nr)
    (hmax : sgm₀.maxPages = Int.bmod ((cnt/pageSize : Nat)+2) (2^32))
    (ht : Tiles pageSize start cnt sgm.sgl) : cnt/pageSize+2 < 2^31 := by
  obtain ⟨_,hfit,_⟩ := sgRangeCheck_none_iff.mp h.inRange
  have hlen := sgPopulate_length h.populated
  have hle := ht.le_pages
  have hlt := nrPages_lt start cnt
  have hnr := h.nonempty
  have hcnt := h.counted
  have hq : cnt/pageSize ≤ nr := by
    unfold pageSize at *
    omega
  rw [hmax, hcnt] at hfit
  simp only [Int.bmod] at hfit
  split at hfit <;> omega

theorem created_granted {x : XdmaTransfer} (hc : cnt < 2^64) (hfew : cnt/pageSize+2 < 2^31)
    (h : transferCreate k start cnt ep m = .ok (some x)) : Granted k start cnt m := by
  obtain ⟨_,sgm₀,rc,sgm,bus,d,last,d',hcreate,hpages,_,hmapped,halloc,_,rfl⟩ :=
    transferCreate_steps h
  obtain ⟨hpos,hmapper,rfl⟩ := sgCreateMapper_some_iff.mp hcreate
  have hnumber := (xdmaDescAlloc_some halloc).1
  have hsome : (k.pciAllocConsistent (k.pciMapSg sgm.sgl).length).isSome = true := by
    cases hp : k.pciAllocConsistent (k.pciMapSg sgm.sgl).length with
    | none => simp [xdmaDescAlloc, hp, Nat.not_lt.mpr hnumber] at halloc
    | some am => rfl
  cases hu : m.userspace with
  | true =>
    rw [hu, if_pos rfl] at hpages
    obtain ⟨nr,hlisted,hpin⟩ := sgmGetUserPages_listed hpages rfl hmapped
    obtain ⟨hwrap,rfl,hsgl⟩ := hlisted.pages hc hfew
    rw [hsgl] at hnumber hsome
    have huser : m.userspace ≠ false := by simp [hu]
    exact ⟨hpos,hwrap,hfew,hmapper,fun _ => hpin,fun hk => absurd hk huser,
      List.length_pos_iff.mp hnumber,hsome⟩
  | false =>
    rw [hu, if_neg Bool.false_ne_true] at hpages
    obtain ⟨nr,hlisted,hback⟩ := sgmKernelPages_listed hpages rfl hmapped
    obtain ⟨hwrap,rfl,hsgl⟩ := hlisted.pages hc hfew
    rw [hsgl] at hnumber hsome
    have hkernel : m.userspace ≠ true := by simp [hu]
    exact ⟨hpos,hwrap,hfew,hmapper,fun hk => absurd hk hkernel,fun _ => hback,
      List.length_pos_iff.mp hnumber,hsome⟩

theorem Complete.granted {x : XdmaTransfer} (hc : cnt < 2^64)
    (h : transferCreate k start cnt ep m = .ok (some x)) (hx : Complete k start cnt ep m x) :
    Granted k start cnt m := by
  refine created_granted hc ?_ h
  obtain ⟨_,sgm₀,rc,sgm,bus,d,last,d',hcreate,hpages,_,hmapped,_,_,rfl⟩ := transferCreate_steps h
  obtain ⟨_,_,rfl⟩ := sgCreateMapper_some_iff.mp hcreate
  obtain ⟨sgm',hsgm,ht,_⟩ := hx.mapped
  cases hsgm
  cases hu : m.userspace with
  | true =>
    rw [hu, if_pos rfl] at hpages
    obtain ⟨nr,hlisted,_⟩ := sgmGetUserPages_listed hpages rfl hmapped
    exact hlisted.fewPages (by dsimp only) ht
  | false =>
    rw [hu, if_neg Bool.false_ne_true] at hpages
    obtain ⟨nr,hlisted,_⟩ := sgmKernelPages_listed hpages rfl hmapped
    exact hlisted.fewPages (by dsimp only) ht

def grantedMapper (start cnt : Nat) : SgMapping :=
  ⟨pagePieces pageSize start cnt,((cnt/pageSize+2 : Nat) : Int),touched start cnt⟩

theorem grantedMapper_mapped (start cnt : Nat) :
    (decide (((touched start cnt : Nat) : Int) < 0) ||
      (grantedMapper start cnt).mappedPages == 0) = false := by
  have hneg : ¬ ((touched start cnt : Nat) : Int) < 0 := Int.not_lt.mpr (Int.natCast_nonneg _)
  have hzero : touched start cnt ≠ 0 := Nat.succ_ne_zero _
  simp [grantedMapper, hneg, hzero]

theorem Granted.creates_mapper (h : Granted k start cnt m) :
    sgCreateMapper k cnt = some ⟨[],((cnt/pageSize+2 : Nat) : Int),0⟩ :=
  sgCreateMapper_some_iff.mpr ⟨h.nonempty,h.mapper,by rw [sgCreateMapper_pages h.fewPages]⟩

theorem Granted.fits (h : Granted k start cnt m) :
    SgMapping.Fits ⟨[],((cnt/pageSize+2 : Nat) : Int),0⟩ start cnt :=
  sgCreateMapper_fits h.creates_mapper h.nonempty (Nat.le_refl cnt) h.fewPages h.noWrap

theorem Granted.lists (h : Granted k start cnt m) :
    (if m.userspace then sgmGetUserPages k ⟨[],((cnt/pageSize+2 : Nat) : Int),0⟩ start cnt
      else sgmKernelPages k ⟨[],((cnt/pageSize+2 : Nat) : Int),0⟩ start cnt) =
      .ok (touched start cnt,grantedMapper start cnt) := by
  cases hu : m.userspace with
  | true =>
    rw [if_pos rfl, sgmGetUserPages_lists h.fits (h.pinned hu)]
    rfl
  | false =>
    rw [if_neg Bool.false_ne_true, sgmKernelPages_lists h.fits (h.backed hu)]
    rfl

def heldCreated (pages : Nat) : List Held :=
  [.transfer,.mapper,.pageArray,.sgl] ++ pagesHeld pages ++ [.mapping,.descriptors]

def heldDestroyed (pages : Nat) : List Held :=
  .mapping :: (pagesHeld pages ++ [.sgl,.pageArray,.mapper]) ++ [.descriptors,.transfer]

theorem heldCreated_nodup (n : Nat) : (heldCreated n).Nodup := by
  have hpages := pagesHeld_nodup n
  unfold pagesHeld at hpages
  simp [heldCreated, List.nodup_append, hpages, pagesHeld]

theorem heldCreated_perm (n : Nat) : (heldCreated n).Perm (heldDestroyed n) := by
  refine (List.perm_ext_iff_of_nodup (heldCreated_nodup n) ?_).mpr fun r => ?_
  · have hpages := pagesHeld_nodup n
    unfold pagesHeld at hpages
    simp [heldDestroyed, List.nodup_append, hpages, pagesHeld]
  · simp only [heldCreated, heldDestroyed, List.mem_append, List.mem_cons, List.not_mem_nil,
      or_false]
    tauto

def pinnedPages (start cnt : Nat) (m : BuildMode) : Nat :=
  if m.userspace then touched start cnt else 0

theorem Granted.events (h : Granted k start cnt m) (hk : k.kzallocTransfer = true) :
    transferCreateEvents k start cnt m = (heldCreated (pinnedPages start cnt m)).map acquire := by
  have hpos : 1 ≤ (k.pciMapSg (pagePieces pageSize start cnt)).length :=
    List.length_pos_iff.mpr h.mapped
  have hmapper : sgCreateMapperEvents k cnt = [acquire .mapper,acquire .pageArray,acquire .sgl] := by
    have hzero : cnt ≠ 0 := Nat.ne_of_gt h.nonempty
    simp [sgCreateMapperEvents, hzero, h.mapper.1, h.mapper.2.1, h.mapper.2.2]
  have hpins : (if m.userspace = true then
      sgmGetUserPagesEvents k ⟨[],((cnt/pageSize+2 : Nat) : Int),0⟩ start cnt else []) =
      (pagesHeld (pinnedPages start cnt m)).map acquire := by
    cases hu : m.userspace with
    | true =>
      have hnr := nrPages_touched h.nonempty h.fewPages h.noWrap
      simp only [if_true, sgmGetUserPagesEvents, h.fits.inRange, hnr, Int.toNat_natCast, h.pinned hu,
        Int.lt_irrefl, if_false, List.append_nil, pinnedPages, hu]
    | false => simp [pinnedPages, hu, pagesHeld]
  simp only [transferCreateEvents, hk, Bool.not_true, Bool.false_eq_true, if_false, hmapper,
    h.creates_mapper, hpins, h.lists, grantedMapper_mapped]
  simp only [grantedMapper, Nat.not_lt.mpr hpos, if_false, h.descriptors, if_true, heldCreated,
    List.map_append, List.map_cons, List.map_nil, List.cons_append, List.nil_append]

theorem Granted.completes (h : Granted k start cnt m) (hk : k.kzallocTransfer = true) (ep : U64) :
    ∃ x, transferCreate k start cnt ep m = .ok (some x) ∧ Complete k start cnt ep m x := by
  have hpos : 1 ≤ (k.pciMapSg (pagePieces pageSize start cnt)).length :=
    List.length_pos_iff.mpr h.mapped
  obtain ⟨⟨bus,memory⟩,halloc⟩ := Option.isSome_iff_exists.mp h.descriptors
  obtain ⟨d,hd,_⟩ := xdmaDescAlloc_spec hpos bus memory
  obtain ⟨last,d',hbuild,hlast,_⟩ := transferBuild_chain h.mapped d ep m
  obtain ⟨x,hxeq⟩ : ∃ x, x = filledIn m (grantedMapper start cnt)
      (k.pciMapSg (pagePieces pageSize start cnt)).length bus d' last := ⟨_,rfl⟩
  have hx : transferCreate k start cnt ep m = .ok (some x) := by
    simp only [transferCreate, hk, Bool.not_true, Bool.false_eq_true, if_false, h.creates_mapper,
      h.lists, grantedMapper_mapped]
    simp only [grantedMapper, halloc, hd, hbuild, hxeq]
  have hsgm : x.sgm = some (grantedMapper start cnt) := by rw [hxeq]; rfl
  refine ⟨x,hx,?_,?_,transferCreate_linked hx,?_,⟨grantedMapper start cnt,hsgm,
    pagePieces_tiles pageSize_pos h.nonempty,?_,?_⟩,?_⟩
  · rw [hxeq]; rfl
  · rw [hxeq]; rfl
  · rw [hxeq]
    exact hlast
  · rw [hxeq]; rfl
  · intro hincr hlen
    rw [hxeq, filledIn_expand]
    exact transferBuild_moves hincr hlen hbuild
  · intro r
    have hdestroy : transferDestroyEvents x =
        (heldDestroyed (pinnedPages start cnt m)).map release := by
      have huser : x.userspace = m.userspace := by rw [hxeq]; rfl
      cases hu : m.userspace <;>
        simp [transferDestroyEvents, hsgm, huser, hu, heldDestroyed, pinnedPages, pagesHeld,
          grantedMapper]
    rw [h.events hk, hdestroy]
    exact balance_returned r (heldCreated_nodup _) (heldCreated_perm _)

theorem created_complete {x : XdmaTransfer} (hc : cnt ≤ xdmaTransferMaxBytes)
    (h : transferCreate k start cnt ep m = .ok (some x)) : Complete k start cnt ep m x := by
  have hmax : xdmaTransferMaxBytes < 2^64 := by decide
  have hg := created_granted (by omega) (fewPages_of_le hc) h
  obtain ⟨y,hy,hcomplete⟩ := hg.completes (transferCreate_steps h).1 ep
  rw [h] at hy
  cases hy
  exact hcomplete

theorem transferCreate_none (h : transferCreate k start cnt ep m = .ok none) :
    k.kzallocTransfer = false := by
  unfold transferCreate at h
  split at h
  · rename_i hkz
    simpa using hkz
  · split at h
    · cases h
    · split at h
      · cases h
      · split at h
        · cases h
        · dsimp only at h
          split at h
          · cases h
          · cases h
          · split at h <;> cases h

theorem transferDataLoop_none {env : Nat → ChunkEnv} {i : Nat} {s : DataState}
    (hres : s.res = 0) (hrem : 0 < s.remaining) (h : s.create (env i).kernel m = .ok none) :
    transferDataLoop m env i s = .ok { s with remaining := 0, res := -eIo } := by
  have hstep : transferDataStep m (env i) s = .ok { s with remaining := 0, res := -eIo } := by
    rw [transferDataStep, h]
  rw [transferDataLoop_more ⟨hres,hrem⟩ hstep,
    transferDataLoop_done (fun hc => Nat.lt_irrefl 0 hc.2)]

/-- A `transfer_create` that does not come back takes `transfer_data` with it. -/
theorem transferDataLoop_fault {env : Nat → ChunkEnv} {i : Nat} {s : DataState} {f : Fault}
    (hres : s.res = 0) (hrem : 0 < s.remaining) (h : s.create (env i).kernel m = .error f) :
    transferDataLoop m env i s = .error f := by
  have hstep : transferDataStep m (env i) s = .error f := by rw [transferDataStep, h]
  rw [transferDataLoop, dif_pos ⟨hres,hrem⟩]
  split
  · rename_i f' hf
    rw [hstep] at hf
    exact hf.symm
  · rename_i t ht
    rw [hstep] at ht
    cases ht

end create

/-- `transfer_create` ends as it should exactly if it does not get as far as asking
for a mapper, or is granted all it asks for. -/
theorem transferCreate_createsOrFails (k : Platform) (start cnt ep : U64) (m : BuildMode) :
    CreatesOrFails k start.toNat cnt.toNat ep m ↔
      k.kzallocTransfer = false ∨ Granted k start.toNat cnt.toNat m := by
  constructor
  · intro h
    obtain ⟨created,hcreated,_,hcomplete⟩ := h.creates
    cases created with
    | none => exact Or.inl (transferCreate_none hcreated)
    | some x => exact Or.inr ((hcomplete x rfl).granted cnt.isLt hcreated)
  · intro h
    by_cases hk : k.kzallocTransfer = true
    · have hg := h.resolve_left (by simp [hk])
      obtain ⟨x,hx,hcomplete⟩ := hg.completes hk ep
      refine ⟨⟨some x,hx,(fun hn => absurd hn (by simp)),?_⟩,fun hu hshort => ?_⟩
      · rintro y ⟨⟩
        exact hcomplete
      · rw [hg.pinned hu] at hshort
        exact absurd hshort (Int.lt_irrefl _)
    · have hnone : transferCreate k start.toNat cnt.toNat ep m = .ok none := by
        simp [transferCreate, hk]
      refine ⟨⟨none,hnone,fun _ r => by simp [transferCreateEvents, hk],by simp⟩,?_⟩
      rintro _ _ env i s rfl hres hrem haddr hlen hpos
      have hcreate : s.create (env i).kernel m = .ok none := by
        rw [DataState.create, haddr, hlen, hpos, hnone]
      exact ⟨_,transferDataLoop_none hres hrem hcreate,rfl,rfl⟩

def Platform.shortPin : Platform :=
  { Platform.ample fun page => BitVec.ofNat 64 (page*4096) with
    getUserPagesFast := fun _ nr => (nr : Int)-1 }

/-- A write of two pages, the second of which is not there. -/
theorem shortPin_not :
    transferData true false (fun _ => ⟨.shortPin,0,.completed⟩) 4096 8192 0 =
        .error (.bug .transferCreate) ∧
      ¬ CreatesOrFails .shortPin 4096 8192 0 ⟨true,false,false,true⟩ := by
  have hbug : transferCreate .shortPin 4096 8192 0 ⟨true,false,false,true⟩ =
      .error (.bug .transferCreate) := rfl
  constructor
  · have hcreate : DataState.create .shortPin ⟨true,false,false,true⟩ ⟨0,0,4096,8192,0,[]⟩ =
        .error (.bug .transferCreate) := hbug
    rw [transferData, transferDataLoop_fault rfl (by decide) hcreate]
  · intro h
    obtain ⟨created,hcreated,_⟩ := h.creates
    rw [hbug] at hcreated
    cases hcreated

end DmaCamera
