import DmaCamera.Transfer
set_option autoImplicit false

namespace DmaCamera

/-- The entries in the order in which they are added, and the bytes that the block
of each has collected in front of it. -/
def addedTo (m : BuildMode) : List SgEntry → Nat → List (Nat × SgEntry)
  | [], _ => []
  | [entry], n => [(n,entry)]
  | entry :: next :: rest, n => (n,entry) :: addedTo m (next :: rest)
    (if needsNewDesc m entry next (n+entry.dmaLength) then 0 else n+entry.dmaLength)

/-- An entry longer than a page is added only where there is room for it. -/
def findsRoom (m : BuildMode) (sgl : List SgEntry) : Prop :=
  ∀ p ∈ addedTo m sgl 0, p.2.dmaLength ≤ pageSize ∨ p.1+p.2.dmaLength ≤ xdmaDescMaxBytes

/-- The look-ahead leaves room for one page, and for no more. -/
theorem room_iff {n len : Nat} (hn : n ≤ xdmaDescMaxBytes-pageSize) :
    n+len ≤ xdmaDescMaxBytes ↔ len ≤ pageSize ∨ n+len ≤ xdmaDescMaxBytes := by
  unfold xdmaDescMaxBytes pageSize at *
  omega

theorem transferBlocks_bounded {m : BuildMode} (es : List SgEntry) (b : Block)
    (hlen : ∀ e ∈ es, e.dmaLength ≤ dmaMaxSegSize) (hc : b.contLen ≤ xdmaDescMaxBytes-pageSize) :
    (∀ b' ∈ transferBlocks m es b, b'.contLen ≤ xdmaDescMaxBytes) ↔
      ∀ p ∈ addedTo m es b.contLen,
        p.2.dmaLength ≤ pageSize ∨ p.1+p.2.dmaLength ≤ xdmaDescMaxBytes := by
  fun_induction transferBlocks m es b with
  | case1 b => simp [addedTo]
  | case2 entry b =>
    have hcl := Block.grow_open hc (hlen entry (List.mem_cons_self ..))
    simp only [addedTo, List.forall_mem_singleton, hcl]
    exact room_iff hc
  | case3 entry next rest b b₁ hnew ih =>
    have hcl : b₁.contLen = b.contLen+entry.dmaLength :=
      Block.grow_open hc (hlen entry (List.mem_cons_self ..))
    have hrest := ih (fun e h => hlen e (List.mem_cons_of_mem _ h)) (Nat.zero_le _)
    rw [hcl] at hnew
    rw [addedTo, if_pos hnew, List.forall_mem_cons, List.forall_mem_cons, hcl]
    exact and_congr (room_iff hc) hrest
  | case4 entry next rest b b₁ hnew ih =>
    have hcl : b₁.contLen = b.contLen+entry.dmaLength :=
      Block.grow_open hc (hlen entry (List.mem_cons_self ..))
    -- the block is not full yet, so the entry had room
    have hroom : b₁.contLen ≤ xdmaDescMaxBytes-pageSize := by
      simp only [needsNewDesc, Bool.or_eq_true, decide_eq_true_eq, not_or] at hnew
      exact Nat.le_of_not_lt hnew.1.2
    have hrest := ih (fun e h => hlen e (List.mem_cons_of_mem _ h)) hroom
    rw [hcl] at hnew hrest hroom
    rw [addedTo, if_neg hnew, List.forall_mem_cons]
    have hfits : b.contLen+entry.dmaLength ≤ xdmaDescMaxBytes :=
      Nat.le_trans hroom (Nat.sub_le _ _)
    exact hrest.trans (and_iff_right (Or.inr hfits)).symm

section build

variable {sgl : List SgEntry} {d d' : Nat → XdmaDesc} {ep : U64} {m : BuildMode} {last : Nat}

theorem Block.write_bytes {b : Block} (h : b.contLen < 2^32) (dir : Bool) (desc : XdmaDesc) :
    (b.write dir desc).bytes.toNat = b.contLen := by
  rw [Block.write, xdmaDescSet_bytes]
  exact Nat.mod_eq_of_lt h

theorem transferBuild_lengths (h : transferBuild sgl d ep m = .ok (last,d')) (n : Nat) :
    (∀ i ≤ last, (d' i).bytes.toNat ≤ n) ↔
      ∀ b ∈ transferBlocks m sgl (firstBlock sgl ep), b.contLen ≤ n := by
  constructor
  · intro hall b hb
    obtain ⟨hlast,hwritten⟩ := transferBuild_blocks h
    obtain ⟨i,hi⟩ := List.mem_iff_getElem?.mp hb
    have hlt := (List.getElem?_eq_some_iff.mp hi).1
    have hbytes := hall i (by omega)
    rw [hwritten i b hi, Block.write_bytes (transferBlocks_lt b hb)] at hbytes
    exact hbytes
  · intro hall i hi
    obtain ⟨b,hb,hwrite⟩ := transferBuild_written h hi
    rw [hwrite, Block.write_bytes (transferBlocks_lt b hb)]
    exact hall b hb

/-- Entries of a page at most never make a descriptor too long. -/
theorem transferBuild_pages_bounded (hlen : ∀ e ∈ sgl, e.dmaLength ≤ pageSize)
    (h : transferBuild sgl d ep m = .ok (last,d')) :
    ∀ i ≤ last, (d' i).bytes.toNat ≤ xdmaDescMaxBytes := by
  have hseg : ∀ e ∈ sgl, e.dmaLength ≤ dmaMaxSegSize := fun e he =>
    Nat.le_trans (hlen e he) (by decide)
  have hadded : ∀ (es : List SgEntry) (n : Nat), (∀ e ∈ es, e.dmaLength ≤ pageSize) →
      ∀ p ∈ addedTo m es n, p.2.dmaLength ≤ pageSize := by
    intro es n hes
    fun_induction addedTo m es n with
    | case1 n => simp
    | case2 entry n => simpa using hes
    | case3 entry next rest n ih =>
      rw [List.forall_mem_cons] at hes ⊢
      exact ⟨hes.1,ih hes.2⟩
  rw [transferBuild_lengths h, transferBlocks_bounded sgl _ hseg (Nat.zero_le _)]
  exact fun p hp => Or.inl (hadded sgl _ hlen p hp)

/-- No descriptor is longer than the maximum exactly if every entry of more than a
page finds room in its block. -/
theorem transferBuild_bounded (hlen : ∀ e ∈ sgl, 1 ≤ e.dmaLength ∧ e.dmaLength ≤ dmaMaxSegSize)
    (h : transferBuild sgl d ep m = .ok (last,d')) :
    (∀ i ≤ last, (d' i).bytes.toNat ≤ xdmaDescMaxBytes) ↔ findsRoom m sgl := by
  rw [transferBuild_lengths h,
    transferBlocks_bounded sgl _ (fun e he => (hlen e he).2) (Nat.zero_le _)]
  exact Iff.rfl

end build

def contiguous : U64 → List Nat → List SgEntry
  | _, [] => []
  | addr, len :: lens => ⟨addr,len⟩ :: contiguous (addr+BitVec.ofNat 64 len) lens

theorem transferBuild_bounded_page : ∃ d',
    transferBuild (contiguous 0x100000 [65536,65536,65536,4096]) (fun _ => default) 0
      ⟨true,false,false,true⟩ = .ok (0,d') ∧
    ∀ i ≤ 0, (d' i).bytes.toNat ≤ xdmaDescMaxBytes := by
  obtain ⟨d',hd⟩ : ∃ d', transferBuild (contiguous 0x100000 [65536,65536,65536,4096])
      (fun _ => default) 0 ⟨true,false,false,true⟩ = .ok (0,d') := ⟨_,rfl⟩
  exact ⟨d',hd,(transferBuild_bounded (by decide) hd).mpr (by unfold findsRoom; decide)⟩

/-- Four segments of 64 KiB are a byte too many for one descriptor. -/
theorem fourSegments_overlong : ∃ d',
    transferBuild (contiguous 0x100000 [65536,65536,65536,65536]) (fun _ => default) 0
      ⟨true,false,false,true⟩ = .ok (0,d') ∧
    (d' 0).bytes.toNat = xdmaDescMaxBytes+1 := ⟨_,rfl,by decide⟩

end DmaCamera
