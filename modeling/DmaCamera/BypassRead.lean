import DmaCamera.ReadResult
import DmaCamera.Transfer
set_option autoImplicit false

namespace DmaCamera

def wordBytes (w : U32) : List Byte := (List.range 4).map fun i => w.extractLsb' (8*i) 8

def XdmaDesc.memory (desc : XdmaDesc) : List Byte :=
  [desc.control,desc.bytes,desc.srcAddrLo,desc.srcAddrHi,desc.dstAddrLo,desc.dstAddrHi,desc.nextLo,
    desc.nextHi].flatMap wordBytes

@[simp] theorem XdmaDesc.memory_length (desc : XdmaDesc) : desc.memory.length = xdmaDescSize := rfl

/-- What `char_bypass_read` keeps from descriptor to descriptor; `copies` counts the
calls of `copy_to_user`. -/
structure BypassState where
  rc : Int
  bufOffset : Nat
  copies : Nat
  user : UserBuffer

/-- One round of the loop of `copy_desc_data`; `left` says how much of a descriptor
cannot be copied. -/
def copyDesc (left : Nat → Nat) (bufSize : Nat) (s : BypassState) (desc : XdmaDesc) : BypassState :=
  if (s.bufOffset+xdmaDescSize) % 2^64 ≤ bufSize then
    let copyErr := min (left s.copies) xdmaDescSize
    let user := s.user.write s.bufOffset (xdmaDescSize-copyErr) fun k => desc.memory.getD k 0
    if copyErr ≠ 0 then ⟨-eInval,bufSize,s.copies+1,user⟩
    else ⟨s.rc,(s.bufOffset+xdmaDescSize) % 2^64,s.copies+1,user⟩
  else { s with rc := -eNoMem }

def XdmaTransfer.descs (x : XdmaTransfer) : List XdmaDesc := (List.range x.descNum).map x.descVirt

def copyDescData (left : Nat → Nat) (bufSize : Nat) (s : BypassState) (x : XdmaTransfer) :
    BypassState :=
  x.descs.foldl (copyDesc left bufSize) { s with rc := 0 }

structure BypassRead where
  bufNull : Bool
  bypassBar : Bool
  count : Nat

def charBypassRead (left : Nat → Nat) (queue : List XdmaTransfer) (r : BypassRead) :
    Int × UserBuffer :=
  if r.count &&& 3 ≠ 0 then (-eInval,.untouched)
  else if r.bufNull then (-eInval,.untouched)
  else if !r.bypassBar then (-eNoDev,.untouched)
  else
    let s := queue.foldl (copyDescData left r.count) ⟨0,0,0,.untouched⟩
    (if s.rc < 0 then s.rc else Int.bmod s.bufOffset (2^64),s.user)

def BypassRead.accepted (r : BypassRead) : Prop :=
  r.count &&& 3 = 0 ∧ r.bufNull = false ∧ r.bypassBar = true

def queuedDescs (queue : List XdmaTransfer) : List XdmaDesc := queue.flatMap XdmaTransfer.descs

section copy

variable (left : Nat → Nat) {count : Nat} {ds : List XdmaDesc} {s : BypassState}

structure Filled (count : Nat) (ds : List XdmaDesc) (s : BypassState) : Prop where
  offset : s.bufOffset = xdmaDescSize*ds.length
  fits : s.bufOffset ≤ count
  holds : s.user.Holds (ds.flatMap XdmaDesc.memory)

/-- A byte of the descriptors is missing, and there is no room for another one. -/
structure Stuck (count n : Nat) (s : BypassState) : Prop where
  full : s.bufOffset ≤ count ∧ count < s.bufOffset+xdmaDescSize
  missing : ∃ o, o < xdmaDescSize*n ∧ s.user o = none
  inside : ∀ o, count ≤ o → s.user o = none

/-- What the return code says of the descriptors so far. -/
def Told (count : Nat) (ds : List XdmaDesc) (s : BypassState) : Prop :=
  (s.rc = 0 ∧ Filled count ds s) ∨ (s.rc < 0 ∧ Stuck count ds.length s)

theorem descs_memory_length (ds : List XdmaDesc) :
    (ds.flatMap XdmaDesc.memory).length = xdmaDescSize*ds.length := by
  induction ds with
  | nil => rfl
  | cons d ds ih =>
    rw [List.flatMap_cons, List.length_append, ih, XdmaDesc.memory_length, List.length_cons,
      Nat.mul_succ, Nat.add_comm]

theorem UserBuffer.Holds.write {user : UserBuffer} {data : List Byte} (h : user.Holds data)
    (more : List Byte) :
    (user.write data.length more.length fun k => more.getD k 0).Holds (data ++ more) := by
  intro o
  unfold UserBuffer.write
  split
  · rename_i hin
    have hlt : o-data.length < more.length := by omega
    simp only [List.getElem?_append_right hin.1, List.getD_eq_getElem?_getD,
      List.getElem?_eq_getElem hlt, Option.getD_some]
  · rename_i hout
    rw [h o]
    by_cases hlt : o < data.length
    · rw [List.getElem?_append_left hlt]
    · rw [List.getElem?_eq_none (by omega), List.getElem?_eq_none (by rw [List.length_append]; omega)]

theorem Filled.step (hcount : count < 2^63) (h : Filled count ds s) (hrc : s.rc = 0)
    (desc : XdmaDesc) : Told count (ds ++ [desc]) (copyDesc left count s desc) := by
  have hlen := descs_memory_length ds
  have hoff := h.offset
  have hfits := h.fits
  have hsucc : xdmaDescSize*(ds ++ [desc]).length = s.bufOffset+xdmaDescSize := by
    rw [List.length_append, Nat.mul_add, hoff]
    rfl
  have hfree : ∀ o, s.bufOffset ≤ o → s.user o = none := fun o ho => by
    rw [h.holds o, List.getElem?_eq_none (by omega)]
  by_cases hroom : s.bufOffset+xdmaDescSize ≤ count
  · have hsmall : (s.bufOffset+xdmaDescSize) % 2^64 = s.bufOffset+xdmaDescSize :=
      Nat.mod_eq_of_lt (by omega)
    rw [copyDesc, if_pos (hsmall.symm ▸ hroom)]
    obtain ⟨e,he⟩ : ∃ e, e = min (left s.copies) xdmaDescSize := ⟨_,rfl⟩
    dsimp only
    rw [← he, hsmall]
    split
    · -- the end of the descriptor stays out of the buffer
      rename_i herr
      have hle : e ≤ xdmaDescSize := he ▸ Nat.min_le_right _ _
      have hpos : 0 < xdmaDescSize := by decide
      refine Or.inr ⟨by simp [eInval],⟨Nat.le_refl _,Nat.lt_add_of_pos_right hpos⟩,
        ⟨s.bufOffset+(xdmaDescSize-e),by omega,?_⟩,fun o ho => ?_⟩
      · simp only [UserBuffer.write]
        rw [if_neg (by omega)]
        exact hfree _ (by omega)
      · simp only [UserBuffer.write]
        rw [if_neg (by omega)]
        exact hfree o (by omega)
    · rename_i herr
      rw [not_not] at herr
      refine Or.inl ⟨hrc,hsucc.symm,hroom,?_⟩
      have hwrite := h.holds.write desc.memory
      rw [hlen, ← hoff, XdmaDesc.memory_length] at hwrite
      simpa [herr] using hwrite
  · have hlarge : ¬ (s.bufOffset+xdmaDescSize) % 2^64 ≤ count := by
      rw [Nat.mod_eq_of_lt (by unfold xdmaDescSize; omega)]
      exact hroom
    rw [copyDesc, if_neg hlarge]
    have hpos : 0 < xdmaDescSize := by decide
    exact Or.inr ⟨by simp [eNoMem],⟨hfits,Nat.lt_of_not_le hroom⟩,
      ⟨s.bufOffset,by omega,hfree _ (Nat.le_refl _)⟩,fun o ho => hfree o (by omega)⟩

theorem Stuck.step (hcount : count < 2^63) {n : Nat} (h : Stuck count n s) (desc : XdmaDesc) :
    (copyDesc left count s desc).rc < 0 ∧ Stuck count (n+1) (copyDesc left count s desc) := by
  obtain ⟨hfits,hfull⟩ := h.full
  have hroom : ¬ (s.bufOffset+xdmaDescSize) % 2^64 ≤ count := by
    rw [Nat.mod_eq_of_lt (by unfold xdmaDescSize; omega)]
    omega
  rw [copyDesc, if_neg hroom]
  obtain ⟨o,ho,hnone⟩ := h.missing
  have hmul : xdmaDescSize*n ≤ xdmaDescSize*(n+1) := Nat.mul_le_mul_left _ (Nat.le_succ n)
  exact ⟨by simp [eNoMem],h.full,⟨o,by omega,hnone⟩,h.inside⟩

theorem Told.step (hcount : count < 2^63) (h : Told count ds s) (desc : XdmaDesc) :
    Told count (ds ++ [desc]) (copyDesc left count s desc) := by
  rcases h with ⟨hrc,hf⟩ | ⟨_,hs⟩
  · exact hf.step left hcount hrc desc
  · rw [Told, List.length_append]
    exact Or.inr (hs.step left hcount desc)

theorem Told.fold (hcount : count < 2^63) (h : Told count ds s) (more : List XdmaDesc) :
    Told count (ds ++ more) (more.foldl (copyDesc left count) s) := by
  induction more generalizing ds s with
  | nil => simpa using h
  | cons desc more ih =>
    have hnext := ih (h.step left hcount desc)
    rwa [List.append_assoc] at hnext

/-- The return code of a transfer tells of all transfers in front of it, too: without
room its first descriptor already fails. -/
theorem copyDescData_told (hcount : count < 2^63) (h : Told count ds s) {x : XdmaTransfer}
    (hx : 1 ≤ x.descNum) : Told count (ds ++ x.descs) (copyDescData left count s x) := by
  obtain ⟨desc,more,hdescs⟩ : ∃ desc more, x.descs = desc :: more := by
    refine List.exists_cons_of_length_pos ?_
    rw [XdmaTransfer.descs, List.length_map, List.length_range]
    exact hx
  have hfirst : Told count (ds ++ [desc]) (copyDesc left count { s with rc := 0 } desc) := by
    rcases h with ⟨_,hf⟩ | ⟨_,hs⟩
    · have hf' : Filled count ds { s with rc := 0 } := ⟨hf.offset,hf.fits,hf.holds⟩
      exact hf'.step left hcount rfl desc
    · have hs' : Stuck count ds.length { s with rc := 0 } := ⟨hs.full,hs.missing,hs.inside⟩
      rw [Told, List.length_append]
      exact Or.inr (hs'.step left hcount desc)
  have hrest := hfirst.fold left hcount more
  rw [List.append_assoc] at hrest
  rw [copyDescData, hdescs]
  exact hrest

theorem queue_told (hcount : count < 2^63) (h : Told count ds s) (queue : List XdmaTransfer)
    (hq : ∀ x ∈ queue, 1 ≤ x.descNum) :
    Told count (ds ++ queuedDescs queue) (queue.foldl (copyDescData left count) s) := by
  induction queue generalizing ds s with
  | nil => simpa [queuedDescs] using h
  | cons x queue ih =>
    rw [List.forall_mem_cons] at hq
    have hnext := ih (copyDescData_told left hcount h hq.1) hq.2
    rwa [List.append_assoc] at hnext

end copy

theorem charBypassRead_refused (left : Nat → Nat) (queue : List XdmaTransfer) {r : BypassRead}
    (h : ¬ r.accepted) : ∃ rc < 0, charBypassRead left queue r = (rc,.untouched) := by
  unfold charBypassRead
  split
  · exact ⟨-eInval,by decide,rfl⟩
  · split
    · exact ⟨-eInval,by decide,rfl⟩
    · split
      · exact ⟨-eNoDev,by decide,rfl⟩
      · rename_i hcount hnull hbar
        rw [not_not] at hcount
        simp only [Bool.not_eq_true, Bool.not_eq_false'] at hnull hbar
        exact absurd ⟨hcount,hnull,hbar⟩ h

theorem charBypassRead_accepted (left : Nat → Nat) (queue : List XdmaTransfer) {r : BypassRead}
    (h : r.accepted) : ∃ s, s = queue.foldl (copyDescData left r.count) ⟨0,0,0,.untouched⟩ ∧
      charBypassRead left queue r =
        (if s.rc < 0 then s.rc else Int.bmod s.bufOffset (2^64),s.user) := by
  obtain ⟨hcount,hnull,hbar⟩ := h
  exact ⟨_,rfl,by simp only [charBypassRead, hcount, hnull, hbar, ne_eq, not_true_eq_false,
    Bool.false_eq_true, Bool.not_true, if_false]⟩

/-- A value is returned exactly if the request is accepted and all descriptors are in
the buffer, and it is their size; nothing is written behind the buffer. -/
theorem charBypassRead_copies (left : Nat → Nat) {queue : List XdmaTransfer} {r : BypassRead}
    (hq : ∀ x ∈ queue, 1 ≤ x.descNum) (hcount : r.count < 2^63) :
    (0 ≤ (charBypassRead left queue r).1 ↔ r.accepted ∧
        (charBypassRead left queue r).2.Holds ((queuedDescs queue).flatMap XdmaDesc.memory)) ∧
      (0 ≤ (charBypassRead left queue r).1 →
        (charBypassRead left queue r).1 = (32*(queuedDescs queue).length : Nat)) ∧
      ∀ o, r.count ≤ o → (charBypassRead left queue r).2 o = none := by
  by_cases hacc : r.accepted
  · obtain ⟨s,hs,hrun⟩ := charBypassRead_accepted left queue hacc
    have h0 : Told r.count [] ⟨0,0,0,.untouched⟩ :=
      Or.inl ⟨rfl,rfl,Nat.zero_le _,fun o => rfl⟩
    have hlen := descs_memory_length (queuedDescs queue)
    have htold := queue_told left hcount h0 queue hq
    rw [List.nil_append, ← hs] at htold
    rw [hrun]
    rcases htold with ⟨hrc,hf⟩ | ⟨hrc,hst⟩
    · have hoff := hf.offset
      have hfits := hf.fits
      have hself : Int.bmod s.bufOffset (2^64) = s.bufOffset := by
        rw [Int.bmod_eq_of_le] <;> omega
      have hnot : ¬ s.rc < 0 := by omega
      rw [if_neg hnot, hself]
      refine ⟨⟨fun _ => ⟨hacc,hf.holds⟩,fun _ => Int.natCast_nonneg _⟩,fun _ => ?_,fun o ho => ?_⟩
      · rw [hoff]
        rfl
      · exact (hf.holds o).trans (List.getElem?_eq_none (by omega))
    · have hnot : ¬ 0 ≤ s.rc := Int.not_le.mpr hrc
      rw [if_pos hrc]
      refine ⟨⟨fun hge => absurd hge hnot,fun ⟨_,hholds⟩ => ?_⟩,fun hge => absurd hge hnot,hst.inside⟩
      obtain ⟨o,ho,hnone⟩ := hst.missing
      have hlt : o < ((queuedDescs queue).flatMap XdmaDesc.memory).length := by omega
      have hthere : s.user o = _ := hholds o
      rw [hnone, List.getElem?_eq_getElem hlt] at hthere
      cases hthere
  · obtain ⟨rc,hneg,hrun⟩ := charBypassRead_refused left queue hacc
    have hnot : ¬ 0 ≤ rc := Int.not_le.mpr hneg
    rw [hrun]
    exact ⟨⟨fun hge => absurd hge hnot,fun h => absurd h.1 hacc⟩,fun hge => absurd hge hnot,
      fun o _ => rfl⟩

def twoQueued : List XdmaTransfer :=
  [{ XdmaTransfer.zero with
      descNum := 2
      descVirt := fun i => ⟨0xad4b0000,64,0x1000,BitVec.ofNat 32 i,0x2000,0,0x3020,0⟩ },
    { XdmaTransfer.zero with
      descNum := 1
      descVirt := fun _ => ⟨0xad4b0013,128,0x5000,0,0x6000,7,0,0⟩ }]

theorem charBypassRead_copies_two :
    (queuedDescs twoQueued).Nodup ∧ (queuedDescs twoQueued).length = 3 ∧
      (charBypassRead (fun _ => 0) twoQueued ⟨false,true,96⟩).1 = 96 ∧
      (charBypassRead (fun _ => 0) twoQueued ⟨false,true,96⟩).2.Holds
        ((queuedDescs twoQueued).flatMap XdmaDesc.memory) := by
  have hq : ∀ x ∈ twoQueued, 1 ≤ x.descNum := by simp [twoQueued]
  obtain ⟨hiff,hsize,_⟩ := @charBypassRead_copies (fun _ => 0) _ ⟨false,true,96⟩ hq (by decide)
  have hvalue : 0 ≤ (charBypassRead (fun _ => 0) twoQueued ⟨false,true,96⟩).1 := by decide +kernel
  exact ⟨by decide,rfl,hsize hvalue,(hiff.mp hvalue).2⟩

/-- With nothing on the queue there is nothing to copy, but a count of one is refused. -/
theorem charBypassRead_refused_empty :
    (charBypassRead (fun _ => 0) [] ⟨false,true,1⟩).1 = -eInval ∧
      (charBypassRead (fun _ => 0) [] ⟨false,true,1⟩).2.Holds
        ((queuedDescs []).flatMap XdmaDesc.memory) := ⟨rfl,fun _ => rfl⟩

end DmaCamera
