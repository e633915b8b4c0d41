import DmaCamera.BitHeader
set_option autoImplicit false

namespace DmaCamera
open Readers

variable {data bs : List Byte}

theorem lies_tapeOf_iff (h : data.length < 2^32 ∨ bs.length ≤ 2^32) :
    Lies (tapeOf data) 0 bs ↔ bs <+: data := by
  rw [List.prefix_iff_getElem?]
  constructor
  · intro hlies k hk
    have hlt : k < 2^32 := by
      rcases h with h | h
      · by_contra hge
        have hend := hlies data.length (by omega)
        rw [Nat.zero_add, tapeOf, Nat.mod_eq_of_lt h, List.getElem?_eq_none (Nat.le_refl _)] at hend
        rw [List.getElem?_eq_getElem (by omega)] at hend
        cases hend
      · exact Nat.lt_of_lt_of_le hk h
    have hread := hlies k hk
    rwa [Nat.zero_add, tapeOf, Nat.mod_eq_of_lt hlt, List.getElem?_eq_getElem hk] at hread
  · intro hpre k hk
    have hdata := (List.getElem?_eq_some_iff.mp (hpre k hk)).1
    have hlt : k < 2^32 := by omega
    rw [Nat.zero_add, tapeOf, Nat.mod_eq_of_lt hlt, hpre k hk, List.getElem?_eq_getElem hk]

/-- A magic length of zero has the index wrap to the first byte, which is not a magic byte. -/
theorem not_lies_magic_zero {n : Nat} (hn : n = 2^32-1) :
    ¬ Lies (tapeOf data) 0 (word16 0 ++ magicBytes n ++ bs) := by
  intro hlies
  have hlen : (magicBytes n).length = n := by rw [magicBytes, List.length_map, List.length_range]
  have hword : (word16 0).length = 2 := rfl
  have hfirst := hlies 0 (by simp only [List.length_append, hword]; omega)
  have hlast := hlies (2^32) (by simp only [List.length_append, hword, hlen]; omega)
  have hbyte : (word16 0 ++ magicBytes n ++ bs)[2^32]? = some xhiEvenMagicByte := by
    rw [List.append_assoc, List.getElem?_append_right (by rw [hword]; omega), hword,
      List.getElem?_append_left (by rw [hlen]; omega), magicBytes, List.getElem?_map,
      List.getElem?_range (by omega)]
    rfl
  rw [hbyte, Nat.zero_add, tapeOf, Nat.mod_self] at hlast
  have hzero : (word16 0 ++ magicBytes n ++ bs)[0]? = some 0 := rfl
  rw [hzero, Nat.add_zero, tapeOf, Nat.zero_mod, hlast] at hfirst
  cases hfirst

theorem word_pred {w : U32} (hw : 1 ≤ w.toNat) : (w-1).toNat = w.toNat-1 := by
  have hone : (1 : U32).toNat = 1 := rfl
  have hlt := w.isLt
  rw [BitVec.toNat_sub, hone]
  omega

theorem word_pred_zero {w : U32} (hw : w.toNat = 0) : (w-1).toNat = 2^32-1 := by
  have hone : (1 : U32).toNat = 1 := rfl
  rw [BitVec.toNat_sub, hone]
  omega

theorem CString.length_encode (s : CString) (tag : Byte) :
    (s.encode tag).length = s.bytes.length+3 := by
  rw [CString.encode, List.length_append]
  change 3+s.bytes.length = _
  rw [Nat.add_comm]

theorem length_magicText (n : Nat) (filler : Byte) : (magicText n filler).length = n-1+3 := by
  have hword : (word16 n).length = 2 := rfl
  rw [magicText, List.length_append, List.length_append, hword, magicBytes, List.length_map,
    List.length_range, List.length_singleton]
  omega

theorem BitHeader.length_encode (h : BitHeader) (filler : Byte) : (h.encode filler).length =
    h.magicLength-1+h.designName.bytes.length+h.partName.bytes.length+h.date.bytes.length+
      h.time.bytes.length+22 := by
  simp only [BitHeader.encode, List.length_append, length_magicText, CString.length_encode,
    List.length_cons, List.length_nil, word32]
  omega

theorem BitHeader.length_encode_lt (h : BitHeader) (filler : Byte) :
    (h.encode filler).length < 2^32 := by
  have := h.magicLength_lt
  have := h.designName.length_lt
  have := h.partName.length_lt
  have := h.date.length_lt
  have := h.time.length_lt
  rw [h.length_encode]
  omega

@[simp] theorem XHwIcapBitHeader.withLength_withLength (f : XHwIcapBitHeader) (m n : Nat) :
    (f.withLength m).withLength n = f.withLength n := rfl

@[simp] theorem BitHeader.fields_withLength (h : BitHeader) (filler : Byte) :
    h.fields.withLength (h.encode filler).length = h.fields := by
  have hsame : (h.encode filler).length = (h.encode 0).length := by
    rw [h.length_encode, h.length_encode]
  rw [hsame]
  rfl

/-- The fields that are read are those of a header that lies in the buffer. -/
theorem readHeader_ok_iff {f : XHwIcapBitHeader} {j : Nat} :
    readHeader (tapeOf data) (fun _ => true) 0 = .ok (f,j) ↔ ∃ (h : BitHeader) (filler : Byte),
      f = h.fields.withLength 0 ∧ Lies (tapeOf data) 0 (h.encode filler) ∧
        j = (h.encode filler).length := by
  have hlast (w : U32) (a b c d : List Byte) := (@readLength_reads (tapeOf data)).map fun l : U32 =>
    (⟨0,l,a,b,c,d,w⟩ : XHwIcapBitHeader)
  have hchain := (@readMagic_reads (tapeOf data)).bind fun w => readOne_reads.bind fun _ =>
    (@readString_reads (tapeOf data) (fun _ => true) tagA).bind fun a =>
    (@readString_reads (tapeOf data) (fun _ => true) tagB).bind fun b =>
    (@readString_reads (tapeOf data) (fun _ => true) tagC).bind fun c =>
    (@readString_reads (tapeOf data) (fun _ => true) tagD).bind fun d => hlast w a b c d
  rw [readHeader, hchain.accepts]
  constructor
  · rintro ⟨bs,⟨w,_,_,⟨hw,filler,rfl⟩,⟨_,_,_,rfl,⟨a,_,_,⟨_,hal,ha,rfl⟩,⟨b,_,_,⟨_,hbl,hb,rfl⟩,
      ⟨c,_,_,⟨_,hcl,hc,rfl⟩,⟨d,_,_,⟨_,hdl,hd,rfl⟩,⟨l,rfl,rfl⟩,rfl⟩,rfl⟩,rfl⟩,rfl⟩,rfl⟩,rfl⟩,hlies,rfl⟩
    have hpos : 1 ≤ w.toNat := by
      by_contra hzero
      have hw0 : w.toNat = 0 := by omega
      rw [hw0, List.append_assoc] at hlies
      exact not_lies_magic_zero (word_pred_zero hw0) hlies
    have henc : BitHeader.encode ⟨w.toNat,hpos,hw,⟨a,hal,ha⟩,⟨b,hbl,hb⟩,⟨c,hcl,hc⟩,⟨d,hdl,hd⟩,l⟩
        filler = word16 w.toNat ++ magicBytes (w-1).toNat ++ [filler] ++ ([0,1] ++
          (tagA :: word16 a.length ++ a ++ (tagB :: word16 b.length ++ b ++
            (tagC :: word16 c.length ++ c ++ (tagD :: word16 d.length ++ d ++
              tagE :: word32 l))))) := by
      rw [word_pred hpos]
      simp [BitHeader.encode, CString.encode, magicText]
    refine ⟨⟨w.toNat,hpos,hw,⟨a,hal,ha⟩,⟨b,hbl,hb⟩,⟨c,hcl,hc⟩,⟨d,hdl,hd⟩,l⟩,filler,?_,?_,?_⟩
    · simp [BitHeader.fields, XHwIcapBitHeader.withLength]
    · rw [henc]
      exact hlies
    · rw [henc, Nat.zero_add]
  · rintro ⟨h,filler,rfl,hlies,rfl⟩
    have hw := word_toNat h.magicLength_lt
    have hpos := h.magicLength_pos
    refine ⟨h.encode filler,⟨BitVec.ofNat 32 h.magicLength,_,_,⟨?_,filler,rfl⟩,⟨(),_,_,rfl,
      ⟨_,_,_,⟨rfl,h.designName.ends,h.designName.length_lt,rfl⟩,
      ⟨_,_,_,⟨rfl,h.partName.ends,h.partName.length_lt,rfl⟩,
      ⟨_,_,_,⟨rfl,h.date.ends,h.date.length_lt,rfl⟩,
      ⟨_,_,_,⟨rfl,h.time.ends,h.time.length_lt,rfl⟩,⟨h.bitstreamLength,rfl,?_⟩,rfl⟩,rfl⟩,rfl⟩,rfl⟩,rfl⟩,?_⟩,hlies,
      (Nat.zero_add _).symm⟩
    · rw [hw]
      exact h.magicLength_lt
    · simp [BitHeader.fields, XHwIcapBitHeader.withLength]
    · rw [← hw] at hpos
      rw [word_pred hpos, hw]
      simp [BitHeader.encode, CString.encode, magicText]

theorem bitstreamParseHeader_ok_iff {f : XHwIcapBitHeader} :
    bitstreamParseHeader (fun _ => true) data = .ok f ↔
      ∃ (h : BitHeader) (filler : Byte), f = h.fields ∧ h.encode filler <+: data := by
  have hlies (h : BitHeader) (filler : Byte) :
      Lies (tapeOf data) 0 (h.encode filler) ↔ h.encode filler <+: data :=
    lies_tapeOf_iff (Or.inr (Nat.le_of_lt (h.length_encode_lt filler)))
  unfold bitstreamParseHeader
  cases hread : readHeader (tapeOf data) (fun _ => true) 0 with
  | error e =>
    constructor
    · intro h
      cases h
    · rintro ⟨h,filler,rfl,hpre⟩
      rw [readHeader_ok_iff.mpr ⟨h,filler,rfl,(hlies h filler).mpr hpre,rfl⟩] at hread
      cases hread
  | ok r =>
    obtain ⟨g,j⟩ := r
    obtain ⟨h,filler,rfl,hl,rfl⟩ := readHeader_ok_iff.mp hread
    simp only [XHwIcapBitHeader.withLength_withLength, BitHeader.fields_withLength, Except.ok.injEq]
    constructor
    · rintro rfl
      exact ⟨h,filler,rfl,(hlies h filler).mp hl⟩
    · rintro ⟨h',filler',rfl,hpre⟩
      have hread' := readHeader_ok_iff.mpr ⟨h',filler',rfl,(hlies h' filler').mpr hpre,rfl⟩
      rw [hread, Except.ok.injEq, Prod.ext_iff] at hread'
      obtain ⟨hf,hlen⟩ := hread'
      calc h.fields = (h.fields.withLength 0).withLength (h.encode filler).length := by simp
        _ = (h'.fields.withLength 0).withLength (h'.encode filler').length := congrArg₂ _ hf hlen
        _ = h'.fields := by simp

theorem BitHeader.fields_headerLength (h : BitHeader) (filler : Byte) :
    h.fields.headerLength.toNat = (h.encode filler).length := by
  have hlt := h.length_encode_lt filler
  rw [← h.fields_withLength filler]
  simp only [XHwIcapBitHeader.withLength, BitVec.toNat_ofNat, Nat.mod_eq_of_lt hlt]

/-- Every header is read back, and only headers are read. -/
theorem bitstreamParseHeader_encode :
    (∀ (h : BitHeader) (filler : Byte) (rest : List Byte),
      bitstreamParseHeader (fun _ => true) (h.encode filler ++ rest) = .ok h.fields ∧
        h.fields.headerLength.toNat = (h.encode filler).length) ∧
    ∀ data f, bitstreamParseHeader (fun _ => true) data = .ok f ↔ ∃ (h : BitHeader) (filler : Byte),
      f = h.fields ∧ data.take f.headerLength.toNat = h.encode filler := by
  refine ⟨fun h filler rest => ⟨?_,h.fields_headerLength filler⟩,fun data f => ?_⟩
  · exact bitstreamParseHeader_ok_iff.mpr ⟨h,filler,rfl,List.prefix_append _ _⟩
  · rw [bitstreamParseHeader_ok_iff]
    have htake (h : BitHeader) (filler : Byte) : h.encode filler <+: data ↔
        data.take h.fields.headerLength.toNat = h.encode filler := by
      rw [h.fields_headerLength filler, List.prefix_iff_eq_take, eq_comm]
    constructor
    · rintro ⟨h,filler,rfl,hpre⟩
      exact ⟨h,filler,rfl,(htake h filler).mp hpre⟩
    · rintro ⟨h,filler,rfl,hpre⟩
      exact ⟨h,filler,rfl,(htake h filler).mpr hpre⟩

end DmaCamera
