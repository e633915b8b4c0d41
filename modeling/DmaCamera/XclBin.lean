import DmaCamera.BitHeader
set_option autoImplicit false

namespace DmaCamera

structure XclBin where
  magic : List Byte
  length : U64
  primaryFirmwareOffset : U64
  primaryFirmwareLength : U64
  secondaryFirmwareOffset : U64
  secondaryFirmwareLength : U64
  deriving DecidableEq, Repr

def xclBinMagic : List Byte := [0x78,0x63,0x6c,0x62,0x69,0x6e,0x30,0]

def bitstreamIoctlChecks (accessOk : U64 → U64 → Bool) (buffer : U64) (binObj : XclBin) :
    Except Int Unit :=
  if binObj.magic ≠ xclBinMagic then .error (-eInval)
  else if binObj.primaryFirmwareOffset+binObj.primaryFirmwareLength > binObj.length then
    .error (-eInval)
  else if binObj.secondaryFirmwareOffset+binObj.secondaryFirmwareLength > binObj.length then
    .error (-eInval)
  else if accessOk buffer binObj.length = false then .error (-eFault)
  else .ok ()

def bitstreamFits (bitHeader : XHwIcapBitHeader) (length : U64) : Bool :=
  ¬ (bitHeader.headerLength+bitHeader.bitstreamLength).setWidth 64 > length

def bodyByte (binObj : XclBin) (bitHeader : XHwIcapBitHeader) (i : Nat) : U64 :=
  binObj.primaryFirmwareOffset+bitHeader.headerLength.setWidth 64+BitVec.ofNat 64 i

structure XclBin.Holds (binObj : XclBin) (bitHeader : XHwIcapBitHeader) : Prop where
  primary : binObj.primaryFirmwareOffset.toNat+binObj.primaryFirmwareLength.toNat ≤
    binObj.length.toNat
  secondary : binObj.secondaryFirmwareOffset.toNat+binObj.secondaryFirmwareLength.toNat ≤
    binObj.length.toNat
  body : bitHeader.headerLength.toNat+bitHeader.bitstreamLength.toNat ≤
    binObj.primaryFirmwareLength.toNat
  bytes : ∀ i < bitHeader.bitstreamLength.toNat,
    (bodyByte binObj bitHeader i).toNat < binObj.length.toNat

structure XclBin.NoWrap (binObj : XclBin) (bitHeader : XHwIcapBitHeader) : Prop where
  primary : binObj.primaryFirmwareOffset.toNat+binObj.primaryFirmwareLength.toNat < 2^64
  secondary : binObj.secondaryFirmwareOffset.toNat+binObj.secondaryFirmwareLength.toNat < 2^64
  body : bitHeader.headerLength.toNat+bitHeader.bitstreamLength.toNat < 2^32 ∨
    bitHeader.headerLength.toNat+bitHeader.bitstreamLength.toNat ≤
      binObj.primaryFirmwareLength.toNat

variable {accessOk : U64 → U64 → Bool} {buffer : U64} {binObj : XclBin}
  {bitHeader : XHwIcapBitHeader} {length : U64}

theorem bitstreamIoctlChecks_ok_iff : bitstreamIoctlChecks accessOk buffer binObj = .ok () ↔
    binObj.magic = xclBinMagic ∧
    (binObj.primaryFirmwareOffset+binObj.primaryFirmwareLength).toNat ≤ binObj.length.toNat ∧
    (binObj.secondaryFirmwareOffset+binObj.secondaryFirmwareLength).toNat ≤ binObj.length.toNat ∧
    accessOk buffer binObj.length = true := by
  unfold bitstreamIoctlChecks
  split
  · rename_i hmagic
    constructor
    · intro h
      cases h
    · rintro ⟨h,_⟩
      exact absurd h hmagic
  rename_i hmagic
  split
  · rename_i hprimary
    rw [gt_iff_lt, BitVec.lt_def] at hprimary
    constructor
    · intro h
      cases h
    · rintro ⟨_,h,_⟩
      exact absurd hprimary (Nat.not_lt.mpr h)
  rename_i hprimary
  split
  · rename_i hsecondary
    rw [gt_iff_lt, BitVec.lt_def] at hsecondary
    constructor
    · intro h
      cases h
    · rintro ⟨_,_,h,_⟩
      exact absurd hsecondary (Nat.not_lt.mpr h)
  rename_i hsecondary
  rw [gt_iff_lt, BitVec.lt_def, Nat.not_lt] at hprimary hsecondary
  split
  · rename_i haccess
    constructor
    · intro h
      cases h
    · rintro ⟨_,_,_,h⟩
      rw [haccess] at h
      cases h
  · rename_i haccess
    exact ⟨fun _ => ⟨not_not.mp hmagic,hprimary,hsecondary,by simpa using haccess⟩,fun _ => rfl⟩

theorem bitstreamFits_iff : bitstreamFits bitHeader length = true ↔
    (bitHeader.headerLength+bitHeader.bitstreamLength).toNat ≤ length.toNat := by
  unfold bitstreamFits
  rw [decide_eq_true_iff, gt_iff_lt, BitVec.lt_def, Nat.not_lt, BitVec.toNat_setWidth,
    Nat.mod_eq_of_lt]
  exact Nat.lt_trans (BitVec.isLt _) (by decide)

theorem add_le_iff_of_wrap {n : Nat} {a b : BitVec n} {c : Nat} (h : (a+b).toNat ≤ c)
    (hc : c < 2^n) : a.toNat+b.toNat ≤ c ↔ a.toNat+b.toNat < 2^n := by
  constructor
  · intro hle
    omega
  · intro hlt
    rwa [BitVec.toNat_add, Nat.mod_eq_of_lt hlt] at h

/-- The containers and headers that are accepted are right exactly if no sum wraps. -/
theorem accepted_holds_iff (accessOk : U64 → U64 → Bool) (buffer : U64) (binObj : XclBin)
    (bitHeader : XHwIcapBitHeader) (haccepts : bitstreamIoctlChecks accessOk buffer binObj = .ok ())
    (hfits : bitstreamFits bitHeader binObj.primaryFirmwareLength = true) :
    binObj.Holds bitHeader ↔ binObj.NoWrap bitHeader := by
  obtain ⟨_,hprimary,hsecondary,_⟩ := bitstreamIoctlChecks_ok_iff.mp haccepts
  have hbody := bitstreamFits_iff.mp hfits
  have hlength := binObj.length.isLt
  constructor
  · intro h
    exact ⟨(add_le_iff_of_wrap hprimary hlength).mp h.primary,
      (add_le_iff_of_wrap hsecondary hlength).mp h.secondary,Or.inr h.body⟩
  · intro h
    have hp := (add_le_iff_of_wrap hprimary hlength).mpr h.primary
    have hb : bitHeader.headerLength.toNat+bitHeader.bitstreamLength.toNat ≤
        binObj.primaryFirmwareLength.toNat := by
      rcases h.body with hlt | hle
      · rwa [BitVec.toNat_add, Nat.mod_eq_of_lt hlt] at hbody
      · exact hle
    refine ⟨hp,(add_le_iff_of_wrap hsecondary hlength).mpr h.secondary,hb,fun i hi => ?_⟩
    have hhead : (bitHeader.headerLength.setWidth 64).toNat = bitHeader.headerLength.toNat := by
      rw [BitVec.toNat_setWidth]
      exact Nat.mod_eq_of_lt (Nat.lt_trans (BitVec.isLt _) (by decide))
    rw [bodyByte, BitVec.toNat_add, BitVec.toNat_add, hhead, BitVec.toNat_ofNat]
    omega

def smallXclBin : XclBin := ⟨xclBinMagic,600,512,30,600,0⟩

theorem accepted_holds_iff_small : smallXclBin.NoWrap ⟨26,4,[0],[0],[0],[0],1⟩ ∧
    smallXclBin.Holds ⟨26,4,[0],[0],[0],[0],1⟩ := by
  have hwrap : smallXclBin.NoWrap ⟨26,4,[0],[0],[0],[0],1⟩ :=
    ⟨by decide,by decide,Or.inl (by decide)⟩
  exact ⟨hwrap,(accepted_holds_iff (fun _ _ => true) 0x10000 smallXclBin ⟨26,4,[0],[0],[0],[0],1⟩
    (by decide) (by decide)).mpr hwrap⟩

def longBody : List Byte :=
  [0,1,0,0,1,0x61,0,1,0,0x62,0,1,0,0x63,0,1,0,0x64,0,1,0,0x65,0xff,0xff,0xff,0xf0]

/-- An offset that wraps with its length, and a body that wraps with its header. -/
theorem accepted_wraps :
    (∃ x : XclBin, bitstreamIoctlChecks (fun _ _ => true) 0x10000 x = .ok () ∧
      x.length.toNat < x.primaryFirmwareOffset.toNat+x.primaryFirmwareLength.toNat) ∧
    ∃ f, bitstreamParseHeader (fun _ => true) longBody = .ok f ∧
      bitstreamFits f smallXclBin.primaryFirmwareLength = true ∧
      smallXclBin.primaryFirmwareLength.toNat < f.headerLength.toNat+f.bitstreamLength.toNat := by
  refine ⟨⟨⟨xclBinMagic,600,0xfffffffffffffff8,30,600,0⟩,by decide,by decide⟩,?_⟩
  exact ⟨⟨26,0xfffffff0,[0],[0],[0],[0],1⟩,by decide +kernel,by decide,by decide⟩

end DmaCamera
