import DmaCamera.Registers
set_option autoImplicit false

namespace DmaCamera

/-! The BARs of the device, as its control and bypass nodes give access to them. -/

/-- A memory BAR; it decodes at most half of the address space. -/
structure BarResource where
  start : U64
  len : Nat
  len_pos : 0 < len
  len_le : len ≤ 2^63
  fits : start.toNat+len ≤ 2^64

def BarResource.last (bar : BarResource) : U64 := bar.start+BitVec.ofNat 64 (bar.len-1)

def BarResource.Contains (bar : BarResource) (a : Nat) : Prop :=
  bar.start.toNat ≤ a ∧ a < bar.start.toNat+bar.len

def intMax : Nat := 2^31-1

def BarResource.mapLen (bar : BarResource) : Nat := if bar.len > intMax then intMax else bar.len

abbrev PageTables := U64 → Option Nat

def BarResource.Mapped (bar : BarResource) (tables : PageTables) (reg : U64) : Prop :=
  ∀ k < bar.mapLen, tables (reg+BitVec.ofNat 64 k) = some (bar.start.toNat+k)

structure Remap where
  pfn : U64
  size : U64
  deriving DecidableEq, Repr

def Remap.pages (r : Remap) : Nat := ((r.size+4095) >>> 12).toNat

def Remap.Maps (r : Remap) (a : Nat) : Prop :=
  r.pfn.toNat*4096 ≤ a ∧ a < (r.pfn.toNat+r.pages)*4096

/-- What is returned, and the call of `io_remap_pfn_range` if it comes to that. -/
def bridgeMmap (bar : BarResource) (ioRemapPfnRange : Remap → Int) (vmPgoff vmStart vmEnd : U64) :
    Int × Option Remap :=
  let off := vmPgoff <<< 12
  let phys := bar.start+off
  let vsize := vmEnd-vmStart
  -- complete resource
  let psize := bar.last-bar.start+1-off
  if vsize > psize then (-eInval,none) else
    let remap : Remap := ⟨phys >>> 12,vsize⟩
    if ioRemapPfnRange remap ≠ 0 then (-eAgain,some remap) else (0,some remap)

structure CtrlResult where
  rc : Int
  pos : Int
  register : Option (U64 × U32)

def ctrlAccess (reg : U64) (value : U64 → U32) (pos : Int) : CtrlResult :=
  -- only 32-bit aligned and 32-bit multiples
  if BitVec.ofInt 64 pos &&& 3 ≠ 0 then ⟨-eProto,pos,none⟩ else
    let addr := reg+BitVec.ofInt 64 pos
    ⟨4,Int.bmod (pos+4) (2^64),some (addr,value addr)⟩

def charCtrlRead (reg : U64) (readRegister : U64 → U32) (pos : Int) : CtrlResult :=
  ctrlAccess reg readRegister pos

def charCtrlWrite (reg : U64) (w : U32) (pos : Int) : CtrlResult :=
  ctrlAccess reg (fun _ => w) pos

/-- The four bytes of the register lie in the BAR, as far as they lie anywhere. -/
def BarResource.Confines (bar : BarResource) (tables : PageTables) (addr : U64) : Prop :=
  ∀ k < 4, ∀ a, tables (addr+BitVec.ofNat 64 k) = some a → bar.Contains a

/-- No page is mapped, or the pages from the offset on end within the BAR. A BAR
that does not start with a page begins inside the first one. -/
def BarResource.FitsMmap (bar : BarResource) (vmPgoff vsize : U64) : Prop :=
  let off := (vmPgoff <<< 12).toNat
  let mapped := ((vsize+4095) >>> 12).toNat*4096
  mapped = 0 ∨ (off ≤ bar.len ∧ bar.start.toNat % 4096 ≤ off ∧
    mapped ≤ bar.len-off+bar.start.toNat % 4096)

def BarResource.FitsRegister (bar : BarResource) (pos : Int) : Prop :=
  (BitVec.ofInt 64 pos).toNat+4 ≤ bar.mapLen

theorem BarResource.psize (bar : BarResource) : bar.last-bar.start+1 = BitVec.ofNat 64 bar.len := by
  have hpos := bar.len_pos
  have hle := bar.len_le
  apply BitVec.eq_of_toNat_eq
  simp only [last, BitVec.toNat_add, BitVec.toNat_sub, BitVec.toNat_ofNat]
  have hs := bar.start.isLt
  have h1 : (1 : U64).toNat = 1 := rfl
  rw [h1]
  omega

theorem shifted_toNat (vmPgoff : U64) : (vmPgoff <<< 12).toNat = vmPgoff.toNat*4096 % 2^64 := by
  rw [BitVec.toNat_shiftLeft, Nat.shiftLeft_eq]

/-- The pages behind an offset lie in the BAR exactly if none of the sums wraps. -/
theorem pages_confined {start len off vsize : Nat} (hlen : len ≤ 2^63) (hfits : start+len ≤ 2^64)
    (hoff : off < 2^64) (hpage : off % 4096 = 0) {pfn pages : Nat}
    (hpfn : pfn = (start+off) % 2^64/4096) (hpages : pages = (vsize+4095) % 2^64/4096) :
    (∀ a, pfn*4096 ≤ a → a < (pfn+pages)*4096 → start ≤ a ∧ a < start+len) ↔
      pages*4096 = 0 ∨ (off ≤ len ∧ start % 4096 ≤ off ∧ pages*4096 ≤ len-off+start % 4096) := by
  by_cases h0 : pages = 0
  · refine ⟨fun _ => Or.inl (by omega),fun _ a ha hb => by omega⟩
  · refine ⟨fun hall => ?_,fun hfit a ha hb => by omega⟩
    have hfirst := hall (pfn*4096) (Nat.le_refl _) (by omega)
    have hlast := hall ((pfn+pages)*4096-1) (by omega) (by omega)
    omega

theorem psize_toNat (bar : BarResource) (off : U64) :
    (BitVec.ofNat 64 bar.len-off).toNat = (bar.len+(2^64-off.toNat)) % 2^64 := by
  have hle := bar.len_le
  rw [BitVec.toNat_sub, BitVec.toNat_ofNat]
  omega

theorem bridgeMmap_accepted {bar : BarResource} {ioRemapPfnRange : Remap → Int}
    {vmPgoff vmStart vmEnd : U64} {r : Remap}
    (h : bridgeMmap bar ioRemapPfnRange vmPgoff vmStart vmEnd = (0,some r)) :
    r = ⟨(bar.start+vmPgoff <<< 12) >>> 12,vmEnd-vmStart⟩ ∧
      (vmEnd-vmStart).toNat ≤ (bar.len+(2^64-(vmPgoff <<< 12).toNat)) % 2^64 := by
  simp only [bridgeMmap, bar.psize] at h
  split at h
  · cases h
  · rename_i hsize
    refine ⟨?_,?_⟩
    · split at h
      · cases h
      · cases h
        rfl
    · rw [← psize_toNat]
      exact BitVec.le_def.mp (BitVec.not_lt.mp hsize)

theorem remapPages_toNat (vsize : U64) :
    ((vsize+4095) >>> 12).toNat = (vsize.toNat+4095) % 2^64/4096 := by
  rw [BitVec.toNat_ushiftRight, BitVec.toNat_add, Nat.shiftRight_eq_div_pow]
  rfl

theorem bridgeMmap_confined {bar : BarResource} {ioRemapPfnRange : Remap → Int}
    {vmPgoff vmStart vmEnd : U64} {r : Remap}
    (h : bridgeMmap bar ioRemapPfnRange vmPgoff vmStart vmEnd = (0,some r)) :
    (∀ a, r.Maps a → bar.Contains a) ↔ bar.FitsMmap vmPgoff (vmEnd-vmStart) := by
  obtain ⟨rfl,_⟩ := bridgeMmap_accepted h
  have hoff : (vmPgoff <<< 12).toNat % 4096 = 0 := by
    rw [shifted_toNat]
    omega
  have hpfn : ((bar.start+vmPgoff <<< 12) >>> 12).toNat =
      (bar.start.toNat+(vmPgoff <<< 12).toNat) % 2^64/4096 := by
    rw [BitVec.toNat_ushiftRight, BitVec.toNat_add, Nat.shiftRight_eq_div_pow]
  have hiff := pages_confined bar.len_le bar.fits (vmPgoff <<< 12).isLt hoff hpfn
    (remapPages_toNat (vmEnd-vmStart))
  simp only [Remap.Maps, Remap.pages, and_imp]
  exact hiff

theorem fitsMmap_wholePages {bar : BarResource} {ioRemapPfnRange : Remap → Int}
    {vmPgoff vmStart vmEnd : U64} {r : Remap}
    (h : bridgeMmap bar ioRemapPfnRange vmPgoff vmStart vmEnd = (0,some r))
    (hstart : bar.start.toNat % 4096 = 0) (hlen : bar.len % 4096 = 0) :
    bar.FitsMmap vmPgoff (vmEnd-vmStart) ↔
      vmEnd = vmStart ∨ (vmPgoff <<< 12).toNat ≤ bar.len := by
  obtain ⟨_,haccept⟩ := bridgeMmap_accepted h
  have hoff : (vmPgoff <<< 12).toNat % 4096 = 0 := by
    rw [shifted_toNat]
    omega
  have hlt := (vmPgoff <<< 12).isLt
  have hle := bar.len_le
  have hempty : vmEnd = vmStart ↔ (vmEnd-vmStart).toNat = 0 := by
    refine ⟨fun he => by rw [he]; simp,fun hz => ?_⟩
    have hzero : vmEnd-vmStart = 0 := BitVec.eq_of_toNat_eq hz
    exact sub_eq_zero.mp hzero
  simp only [BarResource.FitsMmap, remapPages_toNat, hstart, hempty]
  omega

theorem BarResource.mapLen_le (bar : BarResource) : 0 < bar.mapLen ∧ bar.mapLen ≤ bar.len := by
  have hpos := bar.len_pos
  unfold BarResource.mapLen intMax
  split <;> omega

theorem BarResource.outside (bar : BarResource) : ∃ a, ¬bar.Contains a :=
  ⟨bar.start.toNat+bar.len,fun h => Nat.lt_irrefl _ h.2⟩

def BarResource.lookingOut (bar : BarResource) (reg : U64) (out : Nat) : PageTables := fun addr =>
  if (addr-reg).toNat < bar.mapLen then some (bar.start.toNat+(addr-reg).toNat) else some out

theorem lookingOut_mapped (bar : BarResource) (reg : U64) (out : Nat) :
    bar.Mapped (bar.lookingOut reg out) reg := by
  intro k hk
  have hlen := bar.mapLen_le.2
  have hle := bar.len_le
  have hsub : (reg+BitVec.ofNat 64 k-reg).toNat = k := by
    have hcancel : reg+BitVec.ofNat 64 k-reg = BitVec.ofNat 64 k := by
      rw [BitVec.add_comm, BitVec.add_sub_cancel]
    rw [hcancel, BitVec.toNat_ofNat]
    omega
  rw [BarResource.lookingOut, hsub, if_pos hk]

/-- Whatever the page tables hold elsewhere, the register at an offset lies in the
BAR exactly if it lies in the mapping. -/
theorem confines_iff (bar : BarResource) (reg off : U64) (hword : off.toNat % 4 = 0) :
    (∀ tables, bar.Mapped tables reg → bar.Confines tables (reg+off)) ↔
      off.toNat+4 ≤ bar.mapLen := by
  have hlen := bar.mapLen_le.2
  have hoff := off.isLt
  have hnat : ∀ k < 4, (off+BitVec.ofNat 64 k).toNat = off.toNat+k := by
    intro k hk
    rw [BitVec.toNat_add, BitVec.toNat_ofNat]
    omega
  constructor
  · intro hall
    obtain ⟨out,hout⟩ := bar.outside
    by_contra hfit
    refine hout (hall _ (lookingOut_mapped bar reg out) 3 (by decide) out ?_)
    have hsub : reg+off+BitVec.ofNat 64 3-reg = off+BitVec.ofNat 64 3 := by
      rw [BitVec.add_assoc, BitVec.add_comm, BitVec.add_sub_cancel]
    rw [BarResource.lookingOut, hsub, hnat 3 (by decide), if_neg]
    have := bar.mapLen_le.1
    omega
  · intro hfit tables hmapped k hk a ha
    have hat := hmapped (off.toNat+k) (by omega)
    have heq : reg+BitVec.ofNat 64 (off.toNat+k) = reg+off+BitVec.ofNat 64 k := by
      rw [BitVec.add_assoc, ← hnat k hk, BitVec.ofNat_toNat, BitVec.setWidth_eq]
    rw [heq, ha] at hat
    cases hat
    exact ⟨Nat.le_add_right _ _,by omega⟩

theorem ctrlAccess_register {reg : U64} {value : U64 → U32} {pos : Int}
    (h : (ctrlAccess reg value pos).rc = 4) :
    (BitVec.ofInt 64 pos).toNat % 4 = 0 ∧
      (ctrlAccess reg value pos).register =
        some (reg+BitVec.ofInt 64 pos,value (reg+BitVec.ofInt 64 pos)) := by
  unfold ctrlAccess at h ⊢
  split at h
  · simp [eProto] at h
  · rename_i halign
    rw [if_neg halign]
    refine ⟨?_,rfl⟩
    simp only [not_not] at halign
    have hand := congrArg BitVec.toNat halign
    rw [BitVec.toNat_and] at hand
    have h3 : (3 : U64).toNat = 2^2-1 := rfl
    rw [h3, Nat.and_two_pow_sub_one_eq_mod] at hand
    simpa using hand

theorem ctrlAccess_confined {bar : BarResource} {reg : U64} {value : U64 → U32} {pos : Int}
    (h : (ctrlAccess reg value pos).rc = 4) :
    (∀ tables, bar.Mapped tables reg → ∀ access ∈ (ctrlAccess reg value pos).register,
      bar.Confines tables access.1) ↔ bar.FitsRegister pos := by
  obtain ⟨hword,hreg⟩ := ctrlAccess_register h
  rw [BarResource.FitsRegister, ← confines_iff bar reg _ hword, hreg]
  simp

/-- What a node of the BAR lets user space at lies in the BAR exactly if the offset
of a mapping is not behind its end, nor its last page, and a register is one of
those the driver has mapped. -/
theorem barAccess_confined (bar : BarResource) (reg : U64) :
    (∀ ioRemapPfnRange vmPgoff vmStart vmEnd r,
      bridgeMmap bar ioRemapPfnRange vmPgoff vmStart vmEnd = (0,some r) →
      ((∀ a, r.Maps a → bar.Contains a) ↔ bar.FitsMmap vmPgoff (vmEnd-vmStart))) ∧
    (∀ readRegister pos, (charCtrlRead reg readRegister pos).rc = 4 →
      ((∀ tables, bar.Mapped tables reg → ∀ access ∈ (charCtrlRead reg readRegister pos).register,
        bar.Confines tables access.1) ↔ bar.FitsRegister pos)) ∧
    ∀ w pos, (charCtrlWrite reg w pos).rc = 4 →
      ((∀ tables, bar.Mapped tables reg → ∀ access ∈ (charCtrlWrite reg w pos).register,
        bar.Confines tables access.1) ↔ bar.FitsRegister pos) :=
  ⟨fun _ _ _ _ _ h => bridgeMmap_confined h,fun _ _ h => ctrlAccess_confined h,
    fun _ _ h => ctrlAccess_confined h⟩

def BarResource.small : BarResource :=
  ⟨0xf0000000,0x10000,by decide,by decide,by decide⟩

theorem barAccess_confined_page : ∃ r,
    bridgeMmap .small (fun _ => 0) 0xf 0x7000 0x8000 = (0,some r) ∧
      (∀ a, r.Maps a → BarResource.small.Contains a) ∧
      ∀ tables, BarResource.small.Mapped tables 0x100000 →
        BarResource.small.Confines tables (0x100000+0xfffc) := by
  obtain ⟨hmmap,hread,_⟩ := barAccess_confined .small 0x100000
  have haccept : bridgeMmap .small (fun _ => 0) 0xf 0x7000 0x8000 = (0,some ⟨0xf000f,0x1000⟩) := by
    decide
  refine ⟨_,haccept,(hmmap _ _ _ _ _ haccept).mpr ?_,fun tables hmapped => ?_⟩
  · exact Or.inr (by decide)
  · have hfit : BarResource.small.FitsRegister 0xfffc := by
      unfold BarResource.FitsRegister
      decide
    exact (hread (fun _ => 0) 0xfffc (by decide)).mpr hfit tables hmapped _ rfl

/-- A page behind the end of a BAR of 64 KiB, by either way. -/
theorem barAccess_not :
    (∃ r, bridgeMmap .small (fun _ => 0) 0x11 0x7000 0x8000 = (0,some r) ∧
      r.Maps 0xf0011000 ∧ ¬BarResource.small.Contains 0xf0011000) ∧
    ∃ tables, BarResource.small.Mapped tables 0x100000 ∧
      (charCtrlRead 0x100000 (fun _ => 0) 0x11000).register = some (0x111000,0) ∧
      ¬BarResource.small.Confines tables 0x111000 := by
  refine ⟨⟨⟨0xf0011,0x1000⟩,by decide,by unfold Remap.Maps; decide,
    by unfold BarResource.Contains; decide⟩,_,lookingOut_mapped .small 0x100000 0,by decide,
    fun h => ?_⟩
  have hin := h 0 (by decide) 0 (by decide)
  exact absurd hin.1 (by decide)

end DmaCamera
