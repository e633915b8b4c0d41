import DmaCamera.Engine
import DmaCamera.Library.Blocks
import Mathlib.Tactic.IntervalCases
set_option autoImplicit false

namespace DmaCamera
open Blocks

def XdmaTransfer.busAt (x : XdmaTransfer) (i : Nat) : U64 := x.descBus+BitVec.ofNat 64 (32*i)

/-- The fetch rule of the device over the memory it sees: read `extra + 1`
consecutive descriptors, stop if the last of them says so, and else go on at its
next pointer with its adjacent count. `none` is running out of `fuel`. -/
def fetch (memory : U64 → XdmaDesc) : Nat → U64 → Nat → Option (List (List U64))
  | 0, _, _ => none
  | fuel+1, addr, extra =>
    let block := (List.range (extra+1)).map fun i => addr+BitVec.ofNat 64 (32*i)
    let last := memory (addr+BitVec.ofNat 64 (32*extra))
    if last.control.has xdmaDescStopped then some [block]
    else (fetch memory fuel last.next last.extraAdjacent).map (block :: ·)

def fetchFrom (memory : U64 → XdmaDesc) (fuel : Nat) (regs : EngineSgdmaRegs) :
    Option (List (List U64)) :=
  fetch memory fuel (joinAddr regs.firstDescHi regs.firstDescLo) regs.firstDescAdjacent.toNat

def extraAt (x : XdmaTransfer) (i : Nat) : Nat :=
  min (clampExtraAdj (x.descNum-i-1)) (maxAdj4k (pciDmaL (x.busAt (i+1))))

/-- The chain that `transfer_create` leaves in the descriptors. -/
structure Linked (x : XdmaTransfer) : Prop where
  adjacent : x.descAdjacent = x.descNum
  nonempty : 1 ≤ x.descNum
  small : x.descNum < 2^31
  innerControl : ∀ i, i+1 < x.descNum →
    (x.descVirt i).control = descMagic ||| (BitVec.ofNat 32 (extraAt x i) <<< 8)
  innerNext : ∀ i, i+1 < x.descNum → (x.descVirt i).next = x.busAt (i+1)
  lastControl : (x.descVirt (x.descNum-1)).control =
    descMagic ||| (xdmaDescStopped ||| xdmaDescEop ||| xdmaDescCompleted)
  lastNext : (x.descVirt (x.descNum-1)).next = 0

theorem pciDmaL_joinAddr (hi lo : U32) : pciDmaL (joinAddr hi lo) = lo := by
  apply BitVec.eq_of_toNat_eq
  have hl := lo.isLt
  rw [pciDmaL_toNat, joinAddr_toNat]
  omega

theorem zero_or_word (w : U32) : 0 ||| w = w := by simp

theorem xdmaDescAdjacent_control {desc : XdmaDesc} {n : Nat} {bus : U64} (hn : 0 < n)
    (hclear : desc.control &&& 0x0000f0ff = 0) (hnext : desc.next = bus) :
    (xdmaDescAdjacent desc n).control = descMagic |||
      (BitVec.ofNat 32 (min (clampExtraAdj n) (maxAdj4k (pciDmaL bus))) <<< 8) := by
  have hlo : pciDmaL bus = desc.nextLo := by rw [← hnext]; exact pciDmaL_joinAddr _ _
  simp only [xdmaDescAdjacent, hclear, if_pos hn, hlo, zero_or_word]
  rfl

theorem lastDesc_control {desc : XdmaDesc} (hclear : desc.control &&& 0x0000f0ff = 0) :
    (xdmaDescAdjacent (xdmaDescControl (xdmaDescLink desc none)
      (xdmaDescStopped ||| xdmaDescEop ||| xdmaDescCompleted)) 0).control =
      descMagic ||| (xdmaDescStopped ||| xdmaDescEop ||| xdmaDescCompleted) := by
  simp only [xdmaDescAdjacent, xdmaDescControl, xdmaDescLink, hclear, Nat.lt_irrefl, gt_iff_lt,
    if_false, zero_or_word]
  decide

theorem filledIn_desc (m : BuildMode) (sgm : SgMapping) (nents : Nat) (bus : U64)
    (d : Nat → XdmaDesc) (last : Nat) {i : Nat} (hi : i ≤ last) :
    (filledIn m sgm nents bus d last).descVirt i =
      xdmaDescAdjacent (transferPerf d last i) (last-i) := by
  have hlt : i < last+1 := Nat.lt_succ_of_le hi
  have hn : last+1-i-1 = last-i := by omega
  have hloop := Loops.forLoop_update (last+1) (fun i e => xdmaDescAdjacent e (last+1-i-1))
    (transferPerf d last) i
  rw [if_pos hlt, hn] at hloop
  exact hloop

theorem Allocated.clear {d : Nat → XdmaDesc} {bus : U64} {number i : Nat} (h : Allocated d bus number)
    (hi : i < number) : (d i).control &&& 0x0000f0ff = 0 := by
  by_cases hl : i+1 < number
  · exact (h.chained i hl).clear
  · have he : i = number-1 := by omega
    rw [he]
    exact h.lastClear

theorem transferCreate_linked {k : Platform} {start cnt : Nat} {ep : U64} {m : BuildMode}
    {x : XdmaTransfer} (h : transferCreate k start cnt ep m = .ok (some x)) : Linked x := by
  obtain ⟨sgm,nents,bus,d,d',last,rfl,hlast,hsmall,hall,hchain,_⟩ := transferCreate_some h
  have hnum : (filledIn m sgm nents bus d' last).descNum = last+1 := rfl
  have hclear : ∀ i, i ≤ last → (d' i).control &&& 0x0000f0ff = 0 := by
    intro i hi
    rw [(hchain i).1]
    exact hall.clear (by omega)
  have hinner : ∀ i, i < last → transferPerf d' last i = d' i := by
    intro i hi
    rw [transferPerf, Function.update_of_ne (Nat.ne_of_lt hi)]
  have hnext : ∀ i, i < last → (d' i).next = bus+BitVec.ofNat 64 (32*(i+1)) := by
    intro i hi
    rw [(hchain i).2]
    exact (hall.chained i (by omega)).next
  refine ⟨rfl,Nat.le_add_left 1 _,by rw [hnum]; omega,?_,?_,?_,?_⟩
  · intro i hi
    rw [hnum] at hi
    have hlt : i < last := by omega
    have hn : (filledIn m sgm nents bus d' last).descNum-i-1 = last-i := by omega
    rw [filledIn_desc _ _ _ _ _ _ (Nat.le_of_lt hlt), hinner i hlt, extraAt, hn]
    exact xdmaDescAdjacent_control (by omega) (hclear i (Nat.le_of_lt hlt)) (hnext i hlt)
  · intro i hi
    rw [hnum] at hi
    have hlt : i < last := by omega
    rw [filledIn_desc _ _ _ _ _ _ (Nat.le_of_lt hlt), hinner i hlt, xdmaDescAdjacent_next]
    exact hnext i hlt
  · rw [hnum, Nat.add_sub_cancel, filledIn_desc _ _ _ _ _ _ (Nat.le_refl _), Nat.sub_self,
      transferPerf, Function.update_self]
    exact lastDesc_control (hclear last (Nat.le_refl _))
  · rw [hnum, Nat.add_sub_cancel, filledIn_desc _ _ _ _ _ _ (Nat.le_refl _), transferPerf,
      Function.update_self]
    simp

theorem innerControl_fields {extra : Nat} (h : extra ≤ maxExtraAdj) :
    ((descMagic ||| (BitVec.ofNat 32 extra <<< 8) : U32) >>> 8 &&& 0x3f).toNat = extra ∧
      (descMagic ||| (BitVec.ofNat 32 extra <<< 8) : U32) >>> 16 = 0xAD4B ∧
      U32.has (descMagic ||| (BitVec.ofNat 32 extra <<< 8)) xdmaDescStopped = false := by
  unfold maxExtraAdj at h
  interval_cases extra <;> decide

theorem innerControl_flags {extra : Nat} (h : extra ≤ maxExtraAdj) :
    ∀ flag ∈ [xdmaDescStopped,xdmaDescEop,xdmaDescCompleted],
      U32.has (descMagic ||| (BitVec.ofNat 32 extra <<< 8)) flag = false := by
  intro flag hflag
  unfold maxExtraAdj at h
  simp only [List.mem_cons, List.not_mem_nil, or_false] at hflag
  rcases hflag with rfl | rfl | rfl
  all_goals interval_cases extra <;> decide

theorem lastControl_flags : ∀ flag ∈ [xdmaDescStopped,xdmaDescEop,xdmaDescCompleted],
    U32.has (descMagic ||| (xdmaDescStopped ||| xdmaDescEop ||| xdmaDescCompleted)) flag = true := by
  intro flag hflag
  simp only [List.mem_cons, List.not_mem_nil, or_false] at hflag
  rcases hflag with rfl | rfl | rfl <;> decide

theorem extraAt_le (x : XdmaTransfer) (i : Nat) : extraAt x i ≤ maxExtraAdj :=
  Nat.le_trans (Nat.min_le_left _ _) (clampExtraAdj_le _)

/-- The size of the block at index `i` of `n`: up to 16 descriptors, the end of
the page or the end of the list. -/
def blockSize (n i : Nat) : Nat := min (n-i) (min 16 (128-i%128))

theorem blockSize_fits (n : Nat) : Fits (blockSize n) n := by
  intro i hi
  unfold blockSize
  omega

theorem maxAdj4k_aligned {addr : U64} (h : addr.toNat % 32 = 0) :
    maxAdj4k (pciDmaL addr) = 127-addr.toNat/32%128 := by
  have hlow : (pciDmaL addr &&& 0xFFF).toNat = addr.toNat % 4096 := by
    have h12 : (0xFFF : U32).toNat = 2^12-1 := by decide
    rw [BitVec.toNat_and, h12, Nat.and_two_pow_sub_one_eq_mod, pciDmaL_toNat]
    omega
  rw [maxAdj4k, hlow]
  omega

theorem busAt_toNat {x : XdmaTransfer} (hl : x.descBus.toNat < 2^32) {i : Nat} (hi : i < 2^31) :
    (x.busAt i).toNat = x.descBus.toNat+32*i := by
  rw [XdmaTransfer.busAt, BitVec.toNat_add, BitVec.toNat_ofNat]
  omega

theorem busAt_add (x : XdmaTransfer) (i k : Nat) :
    x.busAt i+BitVec.ofNat 64 (32*k) = x.busAt (i+k) := by
  rw [XdmaTransfer.busAt, XdmaTransfer.busAt, BitVec.add_assoc, ← BitVec.ofNat_add, Nat.mul_add]

theorem busAt_zero (x : XdmaTransfer) : x.busAt 0 = x.descBus := by simp [XdmaTransfer.busAt]

theorem extraAt_eq {x : XdmaTransfer} (hx : Linked x) (hp : x.descBus.toNat % pageSize = 0)
    (hl : x.descBus.toNat < 2^32) {i : Nat} (hi : i+1 < x.descNum) :
    extraAt x i+1 = blockSize x.descNum (i+1) := by
  have hsmall := hx.small
  have hb := busAt_toNat (x := x) hl (i := i+1) (by omega)
  have ha : (x.busAt (i+1)).toNat % 32 = 0 := by
    unfold pageSize at hp
    omega
  have hq : (x.busAt (i+1)).toNat / 32 % 128 = (i+1) % 128 := by
    unfold pageSize at hp
    omega
  rw [extraAt, maxAdj4k_aligned ha, hq, clampExtraAdj, blockSize, maxExtraAdj]
  omega

theorem block_addrs (x : XdmaTransfer) (i n : Nat) :
    ((List.range n).map fun k => x.busAt i+BitVec.ofNat 64 (32*k)) =
      (List.range' i n).map x.busAt := by
  rw [List.range'_eq_map_range, List.map_map]
  apply List.map_congr_left
  intro k _
  exact busAt_add x i k

/-- The walk of the device over the chain is the cut of the indices into blocks. -/
theorem fetch_cut {x : XdmaTransfer} (hx : Linked x) (hp : x.descBus.toNat % pageSize = 0)
    (hl : x.descBus.toNat < 2^32) {memory : U64 → XdmaDesc}
    (hm : ∀ i, i < x.descNum → memory (x.busAt i) = x.descVirt i) (fuel i extra : Nat)
    (hi : i < x.descNum) (he : extra+1 = blockSize x.descNum i) (hf : x.descNum ≤ fuel+i) :
    fetch memory fuel (x.busAt i) extra =
      some ((cut (blockSize x.descNum) x.descNum fuel i).map fun block => block.map x.busAt) := by
  induction fuel generalizing i extra with
  | zero => omega
  | succ fuel ih =>
    have hle := (blockSize_fits x.descNum i hi).2
    have hend : i+extra < x.descNum := by omega
    rw [fetch, cut, if_pos hi]
    rw [busAt_add, hm (i+extra) hend, block_addrs, he, List.map_cons]
    by_cases hlast : i+extra+1 < x.descNum
    · have hfields := innerControl_fields (extraAt_le x (i+extra))
      have hc := hx.innerControl (i+extra) hlast
      have hadj : (x.descVirt (i+extra)).extraAdjacent = extraAt x (i+extra) := by
        rw [XdmaDesc.extraAdjacent, hc]
        exact hfields.1
      have hnext : i+blockSize x.descNum i = i+extra+1 := by omega
      rw [hc, hfields.2.2, if_neg Bool.false_ne_true, hx.innerNext (i+extra) hlast, hadj, hnext,
        ih (i+extra+1) _ hlast (extraAt_eq hx hp hl hlast) (by omega)]
      rfl
    · have hidx : i+extra = x.descNum-1 := by omega
      have hstop : U32.has (descMagic ||| (xdmaDescStopped ||| xdmaDescEop ||| xdmaDescCompleted))
          xdmaDescStopped = true := by decide
      have hcut : cut (blockSize x.descNum) x.descNum fuel (i+blockSize x.descNum i) = [] := by
        cases fuel with
        | zero => rfl
        | succ fuel => rw [cut, if_neg (by omega)]
      rw [hidx, hx.lastControl, hstop, if_pos rfl, hcut]
      rfl

/-- A transfer keeps its descriptors while the driver fills in its other fields. -/
structure XdmaTransfer.SameDescriptors (x y : XdmaTransfer) : Prop where
  descVirt : y.descVirt = x.descVirt
  descBus : y.descBus = x.descBus
  descNum : y.descNum = x.descNum
  descAdjacent : y.descAdjacent = x.descAdjacent

theorem engineStart_regs {p : Params} {d d' : Driver} {t : TransferId} {rest : List TransferId}
    (hlist : d.engine.transferList = t :: rest) (h : engineStart p d = .ok d') :
    d'.engine.sgdmaRegs = firstDescRegs (d.transfers t) := by
  unfold engineStart at h
  split at h
  · cases h
  · rw [hlist] at h
    cases h
    rfl

theorem fetchFrom_start {x y : XdmaTransfer} (hx : Linked x) (hy : x.SameDescriptors y)
    (memory : U64 → XdmaDesc) (fuel : Nat) :
    fetchFrom memory fuel (firstDescRegs y) =
      fetch memory fuel (x.busAt 0) (clampExtraAdj x.descNum) := by
  have hpos := hx.nonempty
  have hle := clampExtraAdj_le x.descNum
  have hlt : clampExtraAdj x.descNum < 2^32 := by
    unfold maxExtraAdj at hle
    omega
  have hadj : y.descAdjacent > 0 := by rw [hy.descAdjacent, hx.adjacent]; exact hpos
  have hval : (BitVec.ofNat 32 (clampExtraAdj x.descNum)).toNat = clampExtraAdj x.descNum := by
    rw [BitVec.toNat_ofNat, Nat.mod_eq_of_lt hlt]
  simp only [fetchFrom, firstDescRegs, if_pos hadj, joinAddr_pciDma]
  rw [hy.descAdjacent, hx.adjacent, hy.descBus, hval, busAt_zero]

theorem block_inPage {x : XdmaTransfer} (hx : Linked x) (hp : x.descBus.toNat % pageSize = 0)
    (hl : x.descBus.toNat < 2^32) {j i : Nat} (hj : j < x.descNum)
    (hi : i ∈ List.range' j (blockSize x.descNum j)) :
    (x.busAt i).toNat / pageSize = (x.busAt j).toNat / pageSize ∧
      ((x.busAt i).toNat+xdmaDescSize-1) / pageSize = (x.busAt j).toNat / pageSize := by
  have hsmall := hx.small
  obtain ⟨k,hk,rfl⟩ := List.mem_range'.mp hi
  have hb : k < blockSize x.descNum j := hk
  unfold blockSize at hb
  rw [busAt_toNat hl (by omega), busAt_toNat hl (by omega)]
  unfold pageSize xdmaDescSize at *
  omega

/-- The device and the driver agree on the descriptors of a transfer. -/
theorem engineStart_fetch {k : Platform} {start cnt : Nat} {ep : U64} {m : BuildMode}
    {x : XdmaTransfer} (hx : transferCreate k start cnt ep m = .ok (some x))
    (hp : x.descBus.toNat % pageSize = 0) (hl : x.descBus.toNat < 2^32)
    {p : Params} {d d' : Driver} {t : TransferId} {rest : List TransferId}
    (hlist : d.engine.transferList = t :: rest) (hsame : x.SameDescriptors (d.transfers t))
    (hstart : engineStart p d = .ok d') {memory : U64 → XdmaDesc}
    (hm : ∀ i, i < x.descNum → memory (x.busAt i) = x.descVirt i)
    {fuel : Nat} (hf : x.descNum ≤ fuel) :
    ∃ blocks, fetchFrom memory fuel d'.engine.sgdmaRegs = some blocks ∧
      blocks.flatten = (List.range x.descNum).map x.busAt ∧
      (∀ block ∈ blocks, ∃ page, ∀ a ∈ block,
        a.toNat / pageSize = page ∧ (a.toNat+xdmaDescSize-1) / pageSize = page) ∧
      (∀ i, i < x.descNum → (x.descVirt i).magic = 0xAD4B) ∧
      ∀ i, i < x.descNum →
        (∀ flag ∈ [xdmaDescStopped,xdmaDescEop,xdmaDescCompleted],
          (x.descVirt i).control.has flag = true ↔ i+1 = x.descNum) ∧
        ((x.descVirt i).next = 0 ↔ i+1 = x.descNum) := by
  have hlink := transferCreate_linked hx
  have hpos := hlink.nonempty
  have hsmall := hlink.small
  have hfirst : clampExtraAdj x.descNum+1 = blockSize x.descNum 0 := by
    rw [clampExtraAdj, blockSize, maxExtraAdj]
    omega
  refine ⟨(cut (blockSize x.descNum) x.descNum fuel 0).map fun block => block.map x.busAt,
    ?_,?_,?_,?_,?_⟩
  · rw [engineStart_regs hlist hstart, fetchFrom_start hlink hsame]
    exact fetch_cut hlink hp hl hm fuel 0 _ hpos hfirst (by omega)
  · rw [← List.map_flatten, cut_flatten (blockSize_fits _) fuel 0 (Nat.zero_le _) (by omega),
      List.range_eq_range', Nat.sub_zero]
  · intro block hb
    obtain ⟨indices,hcut,rfl⟩ := List.mem_map.mp hb
    obtain ⟨j,hj,rfl⟩ := mem_cut hcut
    refine ⟨(x.busAt j).toNat / pageSize,fun a ha => ?_⟩
    obtain ⟨i,hi,rfl⟩ := List.mem_map.mp ha
    exact block_inPage hlink hp hl hj hi
  · intro i hi
    by_cases hin : i+1 < x.descNum
    · rw [XdmaDesc.magic, hlink.innerControl i hin]
      exact (innerControl_fields (extraAt_le x i)).2.1
    · have hidx : i = x.descNum-1 := by omega
      rw [XdmaDesc.magic, hidx, hlink.lastControl]
      decide
  · intro i hi
    by_cases hin : i+1 < x.descNum
    · have hne : ¬ i+1 = x.descNum := by omega
      refine ⟨fun flag hflag => ?_,?_⟩
      · rw [hlink.innerControl i hin]
        have hno := innerControl_flags (extraAt_le x i) flag hflag
        simp [hno, hne]
      · rw [hlink.innerNext i hin]
        refine ⟨fun h => ?_,fun h => absurd h hne⟩
        have hz : (x.busAt (i+1)).toNat = 0 := by rw [h]; rfl
        rw [busAt_toNat hl (by omega)] at hz
        omega
    · have hidx : i = x.descNum-1 := by omega
      have hend : i+1 = x.descNum := by omega
      refine ⟨fun flag hflag => ?_,?_⟩
      · rw [hidx, hlink.lastControl]
        simp only [lastControl_flags flag hflag, true_iff]
        omega
      · rw [hidx, hlink.lastNext]
        simp only [true_iff]
        omega

def XdmaTransfer.memory (x : XdmaTransfer) (addr : U64) : XdmaDesc :=
  x.descVirt ((addr.toNat-x.descBus.toNat)/xdmaDescSize)

theorem memory_busAt {x : XdmaTransfer} (hx : Linked x) (hl : x.descBus.toNat < 2^32) {i : Nat}
    (hi : i < x.descNum) : x.memory (x.busAt i) = x.descVirt i := by
  have hsmall := hx.small
  rw [XdmaTransfer.memory, busAt_toNat hl (by omega)]
  congr 1
  unfold xdmaDescSize
  omega

theorem engineStart_fetch_twoPages :
    ∃ x d' blocks,
      transferCreate (.ample fun page => BitVec.ofNat 64 (page*8192)) 100 5000 0
        ⟨true,false,false,true⟩ = .ok (some x) ∧
      engineStart ⟨false,false⟩ (.withEngine
        { engineCreate ⟨false,false⟩ 0 false true with transferList := [0] } fun _ => x) = .ok d' ∧
      fetchFrom x.memory 2 d'.engine.sgdmaRegs = some blocks ∧
      blocks.flatten = [0x10000,0x10020] := by
  obtain ⟨x,hx,hnum,hbus⟩ : ∃ x, transferCreate (.ample fun page => BitVec.ofNat 64 (page*8192)) 100
      5000 0 ⟨true,false,false,true⟩ = .ok (some x) ∧ x.descNum = 2 ∧ x.descBus = 0x10000 :=
    ⟨_,rfl,rfl,rfl⟩
  obtain ⟨d',hstart⟩ : ∃ d', engineStart ⟨false,false⟩ (.withEngine
      { engineCreate ⟨false,false⟩ 0 false true with transferList := [0] } fun _ => x) = .ok d' :=
    ⟨_,rfl⟩
  have hlow : x.descBus.toNat < 2^32 := by rw [hbus]; decide
  have hm : ∀ i, i < x.descNum → x.memory (x.busAt i) = x.descVirt i := fun i hi =>
    memory_busAt (transferCreate_linked hx) hlow hi
  obtain ⟨blocks,hb,hflat,_⟩ := engineStart_fetch hx (by rw [hbus]; decide) hlow rfl
    ⟨rfl,rfl,rfl,rfl⟩ hstart hm (Nat.le_of_eq hnum)
  refine ⟨x,d',blocks,hx,hstart,hb,?_⟩
  rw [hflat, hnum]
  simp [List.range_succ, XdmaTransfer.busAt, hbus]

end DmaCamera
