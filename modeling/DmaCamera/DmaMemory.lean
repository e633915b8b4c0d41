import DmaCamera.Position
import DmaCamera.CreateOutcome
import DmaCamera.Library.Copying
set_option autoImplicit false

namespace DmaCamera
open Spans Copying

/-! What a request makes of the memories, in which the bytes are. -/

/-- The bytes on both sides of the link, by the addresses descriptors have for them. -/
structure Memories where
  host : U64 → Byte
  device : U64 → Byte

def Memories.move (m : Memories) (dirToDev : Bool) (moves : List (U64 × U64)) : Memories :=
  if dirToDev then { m with device := copy m.host moves m.device }
  else { m with host := copy m.device moves m.host }

theorem created_expand {k : Platform} {dma : Nat → U64} (hk : k.MapsPages dma) {start cnt : Nat}
    {ep : U64} {dir : Bool} {x : XdmaTransfer} (hc : cnt ≤ xdmaTransferMaxBytes)
    (h : transferCreate k start cnt ep ⟨dir,false,false,true⟩ = .ok (some x)) :
    x.descNum ≤ x.sglNents ∧ x.expand = (List.range cnt).map fun i : ℕ =>
      ends dir (translate pageSize dma (start+i),ep+(i : U64)) := by
  have hcomplete := created_complete hc h
  obtain ⟨sgm,_,ht,_,hmoves⟩ := hcomplete.mapped
  have hle : ∀ e ∈ k.pciMapSg sgm.sgl, e.dmaLength ≤ dmaMaxSegSize := by
    intro e he
    rw [hk.pciMapSg] at he
    obtain ⟨p,hp,rfl⟩ := List.mem_map.mp he
    exact Nat.le_trans (Tiles.length_le ht p hp) (by decide)
  have hpieces : entryPieces (k.pciMapSg sgm.sgl) =
      sgm.sgl.map fun p => (dma p.page+(p.offset : U64),p.length) := by
    rw [entryPieces, hk.pciMapSg, List.map_map]
    rfl
  refine ⟨hcomplete.fits,?_⟩
  rw [hmoves rfl hle, hpieces, Tiles.weave dma ht ep, List.map_map]
  rfl

section loop

variable {dir : Bool} {dma : Nat → U64} {start count : Nat} {pos : Int} {env : Nat → ChunkEnv}

theorem transferDataStep_fault {m : BuildMode} {c : ChunkEnv} {s : DataState} {f : Fault}
    (h : transferDataStep m c s = .error f) : s.create c.kernel m = .error f := by
  unfold transferDataStep at h
  split at h
  · rename_i hcreate
    cases h
    exact hcreate
  · cases h
  · cases h

/-- A chunk completes, or there is no transfer for it. -/
theorem transferDataStep_settled {c : ChunkEnv} {s t : DataState} (hk : c.kernel.MapsPages dma)
    (hc : c.state = .completed) (hs : start+count < 2^64) (hp : 0 ≤ pos) (hpc : pos+count < 2^63)
    (hm : Moved dir dma start count pos s) (hr : 0 < s.remaining)
    (hstep : transferDataStep ⟨dir,false,false,true⟩ c s = .ok t) :
    Moved dir dma start count pos t ∨ t = { s with remaining := 0, res := -eIo } := by
  have hv : chunkVerdict c.state c.rc = 0 := by simp [chunkVerdict, hc]
  rcases transferDataStep_ok hstep with ⟨_,rfl⟩ | ⟨x,hx,⟨hne,_⟩ | ⟨_,rfl⟩⟩
  · exact Or.inr rfl
  · exact absurd hv hne
  have hle := (chunkLength_bounds hr).2.1
  obtain ⟨hfit,hmove⟩ := created_expand hk hle hx
  exact Or.inl (hm.advance hs hp hpc hr hfit hmove)

theorem transferDataLoop_settled (hk : ∀ i, (env i).kernel.MapsPages dma)
    (hc : ∀ i, (env i).state = .completed) (hs : start+count < 2^64) (hp : 0 ≤ pos)
    (hpc : pos+count < 2^63) (i : Nat) {s t : DataState} (hm : Moved dir dma start count pos s)
    (hloop : transferDataLoop ⟨dir,false,false,true⟩ env i s = .ok t) :
    ∃ s', Moved dir dma start count pos s' ∧ t.built = s'.built ∧ t.pos = s'.pos ∧
      ((t = s' ∧ s'.remaining = 0) ∨ t.res = -eIo) := by
  obtain ⟨n,hn⟩ : ∃ n, n = s.remaining := ⟨_,rfl⟩
  induction n using Nat.strongRecOn generalizing i s with
  | ind n ih =>
    by_cases hr : 0 < s.remaining
    · cases hstep : transferDataStep ⟨dir,false,false,true⟩ (env i) s with
      | error f =>
        rw [transferDataLoop_fault hm.res hr (transferDataStep_fault hstep)] at hloop
        cases hloop
      | ok s' =>
        have hlt := transferDataStep_remaining hr hstep
        rw [transferDataLoop_more ⟨hm.res,hr⟩ hstep] at hloop
        rcases transferDataStep_settled (hk i) (hc i) hs hp hpc hm hr hstep with hm' | rfl
        · exact ih s'.remaining (hn ▸ hlt) (i+1) hm' hloop rfl
        · rw [transferDataLoop_done (by simp)] at hloop
          cases hloop
          exact ⟨_,hm,rfl,rfl,Or.inr rfl⟩
    · rw [transferDataLoop_done (fun h => hr h.2)] at hloop
      cases hloop
      exact ⟨_,hm,rfl,rfl,Or.inl ⟨rfl,Nat.eq_zero_of_not_pos hr⟩⟩

/-- However a request ends, `*pos` tells how much of it was moved. -/
theorem transferData_settled (hk : ∀ i, (env i).kernel.MapsPages dma)
    (hc : ∀ i, (env i).state = .completed) (hs : start+count < 2^64) (hp : 0 ≤ pos)
    (hpc : pos+count < 2^63) {ret pos' : Int} {built : List XdmaTransfer}
    (h : transferData dir false env start count pos = .ok (ret,pos',built)) :
    ∃ done ≤ count, pos' = pos+done ∧ ((ret = count ∧ done = count) ∨ ret < 0) ∧
      built.flatMap XdmaTransfer.expand =
        (List.range done).map (requestedMove dir dma start pos) := by
  have h0 : Moved dir dma start count pos ⟨0,0,start,count,pos,[]⟩ :=
    ⟨rfl,rfl,Nat.zero_add _,(Int.add_zero _).symm,by simp,rfl⟩
  unfold transferData at h
  split at h
  · cases h
  · rename_i t hloop
    cases h
    obtain ⟨s,hm,hbuilt,hpos,hend⟩ := transferDataLoop_settled hk hc hs hp hpc 0 h0 hloop
    have hleft := hm.left
    refine ⟨s.done,by omega,hpos.trans hm.position,?_,by rw [hbuilt, hm.moves]⟩
    rcases hend with ⟨rfl,hr⟩ | hres
    · rw [hm.res]
      simp only [ne_eq, not_true_eq_false, if_false, Int.natCast_inj]
      omega
    · have hneg : -eIo ≠ 0 := by decide
      rw [hres, if_pos hneg]
      exact Or.inr (by decide)

end loop

/-- Another page of memory for each page of the buffer. -/
def PagesApart (dma : Nat → U64) (start count : Nat) : Prop :=
  ∀ i < count, ∀ j < count, dma ((start+i)/pageSize) = dma ((start+j)/pageSize) →
    (start+i)/pageSize = (start+j)/pageSize

theorem PagesApart.injective {k : Platform} {dma : Nat → U64} {start count : Nat}
    (hk : k.MapsPages dma) (h : PagesApart dma start count) {i j : Nat} (hi : i < count)
    (hj : j < count)
    (heq : Spans.translate pageSize dma (start+i) = Spans.translate pageSize dma (start+j)) :
    i = j := by
  have hval (x : Nat) :
      (Spans.translate pageSize dma x).toNat = (dma (x/pageSize)).toNat+x%pageSize := by
    have ha := hk.aligned (x/pageSize)
    have hlt := (dma (x/pageSize)).isLt
    have hmod := Nat.mod_lt x pageSize_pos
    have hcast : ((x%pageSize : Nat) : U64).toNat = x%pageSize % 2^64 := BitVec.toNat_ofNat _ _
    rw [Spans.translate, BitVec.toNat_add, hcast]
    unfold pageSize at *
    omega
  have hsum := congrArg BitVec.toNat heq
  rw [hval, hval] at hsum
  have hi' := hk.aligned ((start+i)/pageSize)
  have hj' := hk.aligned ((start+j)/pageSize)
  have hpage : dma ((start+i)/pageSize) = dma ((start+j)/pageSize) := by
    apply BitVec.eq_of_toNat_eq
    unfold pageSize at *
    omega
  have hdiv := h i hi j hj hpage
  rw [hpage] at hsum
  unfold pageSize at *
  omega

theorem ofInt_injective {pos : Int} {count i j : Nat} (hp : 0 ≤ pos) (hpc : pos+count < 2^63)
    (hi : i < count) (hj : j < count)
    (heq : BitVec.ofInt 64 (pos+i) = BitVec.ofInt 64 (pos+j)) : i = j := by
  have hval (k : Nat) (hk : k < count) : (BitVec.ofInt 64 (pos+k)).toNat = (pos+k).toNat := by
    rw [BitVec.toNat_ofInt, Int.emod_eq_of_lt (by omega) (by omega)]
  have hsum := congrArg BitVec.toNat heq
  rw [hval i hi, hval j hj] at hsum
  omega

theorem requestedMove_pairs (dir : Bool) (dma : Nat → U64) (start : Nat) (pos : Int) (done : Nat) :
    (List.range done).map (requestedMove dir dma start pos) =
      pairs (fun k => (requestedMove dir dma start pos k).1)
        (fun k => (requestedMove dir dma start pos k).2) 0 done := by
  rw [pairs, List.range_eq_range']

theorem identityPages (start count : Nat) (h : start+count < 2^64) :
    PagesApart (fun page => BitVec.ofNat 64 (page*pageSize)) start count := by
  intro i hi j hj heq
  have hval := congrArg BitVec.toNat heq
  rw [BitVec.toNat_ofNat, BitVec.toNat_ofNat] at hval
  unfold pageSize at *
  omega

end DmaCamera
