import DmaCamera.Mapper
set_option autoImplicit false

namespace DmaCamera
open Spans

structure PageList (start count : Nat) (sgl : List Piece) : Prop where
  ordered : (sgl.map Piece.page).Pairwise (· < ·)
  touches : ∀ page, page ∈ sgl.map Piece.page ↔ ∃ x, start ≤ x ∧ x < start+count ∧ x/pageSize = page
  first : sgl.head?.map Piece.offset = some (start % pageSize)
  behind : ∀ p ∈ sgl.tail, p.offset = 0
  lengths : ∀ p ∈ sgl, 1 ≤ p.length ∧ p.length ≤ pageSize
  inPage : ∀ p ∈ sgl, p.offset+p.length ≤ pageSize
  covers : (sgl.flatMap fun p => bytes (p.page*pageSize+p.offset) p.length) = bytes start count

theorem pageList_pagePieces {start count : Nat} (h1 : 1 ≤ count) :
    PageList start count (pagePieces pageSize start count) := by
  have ht := @pagePieces_tiles pageSize pageSize_pos start count h1
  have hinside := ht.inside
  obtain ⟨length,rest,hhead⟩ := @pagePieces_head pageSize start count pageSize_pos
  refine ⟨pagePieces_ordered pageSize_pos h1,ht.touches,?_,pagePieces_tail pageSize_pos start count,
    fun p hp => ?_,fun p hp => (hinside p hp).2,ht.covers⟩
  · rw [hhead]
    rfl
  · have hlen := hinside p hp
    omega

def Platform.FindsPages (k : Platform) (start count : Nat) : Prop :=
  ∀ x, start ≤ x → x < start+count → (k.vmallocToPage (x/pageSize)).isSome = true

/-- What `vmalloc_32` allocates is not in high memory, which a kernel of 64 bits does not have. -/
def Platform.LowMemory (k : Platform) : Prop := ∀ page, k.vmallocToPage page ≠ some true

theorem Platform.FindsPages.backed {k : Platform} {start count : Nat} (h1 : 1 ≤ count)
    (hfound : k.FindsPages start count) (hlow : k.LowMemory) (i : Nat)
    (hi : i < touched start count) : k.vmallocToPage (pageFirst start+i) = some false := by
  have hsplit := Nat.div_add_mod start pageSize
  have hlt := Nat.mod_lt start pageSize_pos
  have hmul : pageSize*(pageFirst start+i) = pageSize*(start/pageSize)+pageSize*i := Nat.mul_add _ _ _
  -- the first byte of the buffer that lies in the page
  obtain ⟨x,hlo,hhi,hx⟩ : ∃ x, start ≤ x ∧ x < start+count ∧ x/pageSize = pageFirst start+i := by
    rcases Nat.eq_zero_or_pos i with rfl | hpos
    · exact ⟨start,Nat.le_refl start,by omega,rfl⟩
    · have hlast : pageSize*i ≤ start % pageSize+count-1 := by
        have hle := Nat.mul_le_mul_left pageSize (Nat.le_of_lt_succ hi)
        exact Nat.le_trans hle (Nat.mul_div_le _ _)
      have hnext : pageSize ≤ pageSize*i := Nat.le_mul_of_pos_right pageSize hpos
      exact ⟨pageSize*(pageFirst start+i),by omega,by omega,Nat.mul_div_cancel_left _ pageSize_pos⟩
  have hsome := hfound x hlo hhi
  rw [hx] at hsome
  obtain ⟨high,hpage⟩ := Option.isSome_iff_exists.mp hsome
  cases high with
  | false => exact hpage
  | true => exact absurd hpage (hlow _)

/-- A mapper that is made for buffers of up to `maxLen` bytes takes every one of them, and both
functions make the same list of its pages. -/
theorem sgmMappers_pageList {k : Platform} {sgm : SgMapping} {maxLen start count : Nat}
    (hmax : maxLen ≤ xdmaTransferMaxBytes) (hcreate : sgCreateMapper k maxLen = some sgm)
    (h1 : 1 ≤ count) (hc : count ≤ maxLen) (hs : start+count < 2^64) :
    ∃ sgm', PageList start count sgm'.sgl ∧ (sgm'.sgl.length : Int) ≤ sgm.maxPages ∧
      sgm'.maxPages = sgm.maxPages ∧ sgm'.mappedPages = sgm'.sgl.length ∧
      (k.getUserPagesFast start sgm'.sgl.length = sgm'.sgl.length →
        sgmGetUserPages k sgm start count = .ok (sgm'.sgl.length,sgm')) ∧
      (k.FindsPages start count → k.LowMemory →
        sgmKernelPages k sgm start count = .ok (sgm'.sgl.length,sgm')) := by
  have hfits := sgCreateMapper_fits hcreate h1 hc (fewPages_of_le hmax) hs
  have hlen : (sgm.listing start count).sgl.length = touched start count :=
    pagePieces_length pageSize_pos h1
  refine ⟨sgm.listing start count,pageList_pagePieces h1,?_⟩
  rw [hlen]
  refine ⟨hfits.room,rfl,rfl,fun hpinned => ?_,fun hfound hlow => ?_⟩
  · exact sgmGetUserPages_lists hfits hpinned
  · exact sgmKernelPages_lists hfits (hfound.backed h1 hlow)

theorem sgmMappers_pageList_twoPages :
    ∃ sgm', PageList 4095 4 sgm'.sgl ∧ (sgm'.sgl.length : Int) ≤ 2 ∧
      sgm'.maxPages = 2 ∧ sgm'.mappedPages = sgm'.sgl.length ∧
      sgmGetUserPages (.ample fun _ => 0) ⟨[],2,0⟩ 4095 4 = .ok (sgm'.sgl.length,sgm') ∧
      sgmKernelPages (.ample fun _ => 0) ⟨[],2,0⟩ 4095 4 = .ok (sgm'.sgl.length,sgm') := by
  obtain ⟨sgm',hlist,hroom,hmax,hmapped,huser,hkernel⟩ := @sgmMappers_pageList (.ample fun _ => 0)
    ⟨[],2,0⟩ 5 4095 4 (by decide) rfl (by decide) (by decide) (by decide)
  exact ⟨sgm',hlist,hroom,hmax,hmapped,huser rfl,hkernel (fun _ _ _ => rfl) fun _ h => by cases h⟩

end DmaCamera
