import DmaCamera.BitHeaderRoundTrip
set_option autoImplicit false

namespace DmaCamera
open Readers

/-- A magic length of zero is taken for one of 2^32-1 bytes. -/
def magicSection : Section HeaderFault Byte where
  right bs := ∃ n filler, 1 ≤ n ∧ n < 2^16 ∧ bs = magicText n filler
  wrong e bs := e = .invalid ∧ ∃ n k b, n < 2^16 ∧ k < (n+(2^32-1)) % 2^32 ∧ b ≠ magicByte k ∧
    bs = word16 n ++ magicBytes k ++ [b]

def oneSection : Section HeaderFault Byte where
  right bs := bs = [0,1]
  wrong e bs := e = .invalid ∧ ∃ hi lo : Byte, [hi,lo] ≠ [0,1] ∧ bs = [hi,lo]

def stringSection (kmalloc : Byte → Bool) (tag : Byte) : Section HeaderFault Byte where
  right bs := kmalloc tag = true ∧ ∃ s : CString, bs = s.encode tag
  wrong := stringWrong kmalloc tag

def lengthSection : Section HeaderFault Byte where
  right bs := ∃ w, bs = tagE :: word32 w
  wrong e bs := e = .invalid ∧ ∃ b, b ≠ tagE ∧ bs = [b]

def bodySections (kmalloc : Byte → Bool) : List (Section HeaderFault Byte) :=
  [oneSection,stringSection kmalloc tagA,stringSection kmalloc tagB,stringSection kmalloc tagC,
    stringSection kmalloc tagD,lengthSection]

def headerSections (kmalloc : Byte → Bool) : List (Section HeaderFault Byte) :=
  magicSection :: bodySections kmalloc

/-- The sections as they are read: a magic length of zero passes. -/
def magicSectionRead : Section HeaderFault Byte where
  right bs := ∃ w : U32, w.toNat < 2^16 ∧
    ∃ filler, bs = word16 w.toNat ++ magicBytes (w-1).toNat ++ [filler]
  wrong := magicSection.wrong

variable {tape : Nat → Option Byte} {kmalloc : Byte → Bool} {data : List Byte}

theorem word_pred_toNat (w : U32) : (w-1).toNat = (w.toNat+(2^32-1)) % 2^32 := by
  have hone : (1 : U32).toNat = 1 := rfl
  rw [BitVec.toNat_sub, hone, Nat.add_comm]

theorem readMagic_section : Reads tape (readMagic tape)
    (fun w bs => w.toNat < 2^16 ∧
      ∃ filler, bs = word16 w.toNat ++ magicBytes (w-1).toNat ++ [filler])
    magicSectionRead.wrong := by
  refine readMagic_reads.congr (fun w bs => Iff.rfl) (fun e bs => and_congr_right fun _ => ?_)
  constructor
  · rintro ⟨w,hlt,k,hk,b,hb,rfl⟩
    rw [word_pred_toNat] at hk
    exact ⟨w.toNat,k,b,hlt,hk,hb,rfl⟩
  · rintro ⟨n,k,b,hlt,hk,hb,rfl⟩
    refine ⟨BitVec.ofNat 32 n,?_,k,?_,b,hb,?_⟩
    · rwa [word_toNat hlt]
    · rwa [word_pred_toNat, word_toNat hlt]
    · rw [word_toNat hlt]

theorem readString_section (tag : Byte) (bs : List Byte) : (stringSection kmalloc tag).right bs ↔
    ∃ s : List Byte, kmalloc tag = true ∧ s.getLast? = some 0 ∧ s.length < 2^16 ∧
      bs = tag :: word16 s.length ++ s := by
  constructor
  · rintro ⟨halloc,s,rfl⟩
    exact ⟨s.bytes,halloc,s.ends,s.length_lt,rfl⟩
  · rintro ⟨s,halloc,hlast,hlt,rfl⟩
    exact ⟨halloc,⟨s,hlast,hlt⟩,rfl⟩

theorem readHeader_parses :
    Parses tape (readHeader tape kmalloc) (magicSectionRead :: bodySections kmalloc) := by
  refine readMagic_section.parses (fun bs => Iff.rfl) fun w => ?_
  refine readOne_reads.parses (fun bs => ?_) fun _ => ?_
  · exact ⟨fun h => ⟨(),h⟩,fun ⟨_,h⟩ => h⟩
  refine readString_reads.parses (readString_section tagA) fun a => ?_
  refine readString_reads.parses (readString_section tagB) fun b => ?_
  refine readString_reads.parses (readString_section tagC) fun c => ?_
  refine readString_reads.parses (readString_section tagD) fun d => ?_
  exact readLength_reads.parses (fun bs => Iff.rfl) fun l => parses_pure _

/-- No buffer holds the magic of length zero. -/
theorem magicSection_right {as cs : List Byte} (hlies : Lies (tapeOf data) 0 (as ++ cs)) :
    magicSectionRead.right as ↔ magicSection.right as := by
  constructor
  · rintro ⟨w,hlt,filler,rfl⟩
    have hpos : 1 ≤ w.toNat := by
      by_contra hzero
      have hw0 : w.toNat = 0 := by omega
      rw [hw0, List.append_assoc] at hlies
      exact not_lies_magic_zero (word_pred_zero hw0) hlies
    exact ⟨w.toNat,filler,hpos,hlt,by rw [magicText, word_pred hpos]⟩
  · rintro ⟨n,filler,hpos,hlt,rfl⟩
    have hn := word_toNat hlt
    refine ⟨BitVec.ofNat 32 n,by rwa [hn],filler,?_⟩
    rw [word_pred (by rwa [hn]), hn, magicText]

theorem whole_headerSections {bs : List Byte} (hlies : Lies (tapeOf data) 0 bs) :
    Whole (magicSectionRead :: bodySections kmalloc) bs ↔ Whole (headerSections kmalloc) bs := by
  constructor
  · rintro ⟨as,cs,has,hcs,rfl⟩
    exact ⟨as,cs,(magicSection_right hlies).mp has,hcs,rfl⟩
  · rintro ⟨as,cs,has,hcs,rfl⟩
    exact ⟨as,cs,(magicSection_right hlies).mpr has,hcs,rfl⟩

theorem broken_headerSections {bs : List Byte} {e : HeaderFault} (hlies : Lies (tapeOf data) 0 bs) :
    Broken (magicSectionRead :: bodySections kmalloc) e bs ↔
      Broken (headerSections kmalloc) e bs := by
  constructor
  · rintro (hwrong | ⟨as,cs,has,hcs,rfl⟩)
    · exact Or.inl hwrong
    · exact Or.inr ⟨as,cs,(magicSection_right hlies).mp has,hcs,rfl⟩
  · rintro (hwrong | ⟨as,cs,has,hcs,rfl⟩)
    · exact Or.inl hwrong
    · exact Or.inr ⟨as,cs,(magicSection_right hlies).mpr has,hcs,rfl⟩

theorem bitstreamParseHeader_error_iff {e : Stop HeaderFault} :
    bitstreamParseHeader kmalloc data = .error e ↔ readHeader (tapeOf data) kmalloc 0 = .error e := by
  unfold bitstreamParseHeader
  cases readHeader (tapeOf data) kmalloc 0 with
  | error e' => simp
  | ok r => simp

/-- All that is read lies in the buffer and in the strings exactly if the buffer begins
with a header, or with a text that goes wrong in one of the ways that are looked for. -/
theorem bitstreamParseHeader_inside (kmalloc : Byte → Bool) (data : List Byte)
    (hsize : data.length < 2^32) :
    (∀ e, bitstreamParseHeader kmalloc data = .error e → e = .refused .invalid) ↔
      ∃ text, text <+: data ∧
        (Whole (headerSections kmalloc) text ∨ Broken (headerSections kmalloc) .invalid text) := by
  have hends := (@readHeader_parses (tapeOf data) kmalloc).ends_iff (· = .invalid) 0
  simp only [exists_eq_left, exists_eq_right] at hends
  simp only [bitstreamParseHeader_error_iff]
  rw [hends]
  refine exists_congr fun text => ?_
  rw [lies_tapeOf_iff (Or.inl hsize)]
  refine and_congr_right fun hpre => ?_
  have hlies := (lies_tapeOf_iff (Or.inl hsize)).mpr hpre
  rw [whole_headerSections hlies, broken_headerSections hlies]

theorem bitstreamParseHeader_inside_nine :
    bitstreamParseHeader (fun _ => true) [0,1,0,0,1,0x61,0,1,9] = .error (.refused .invalid) ∧
      ∃ text, text <+: [0,1,0,0,1,0x61,0,1,9] ∧ (Whole (headerSections fun _ => true) text ∨
        Broken (headerSections fun _ => true) .invalid text) := by
  have hrefused : bitstreamParseHeader (fun _ => true) [0,1,0,0,1,0x61,0,1,9] =
      .error (.refused .invalid) := by decide +kernel
  refine ⟨hrefused,(bitstreamParseHeader_inside (fun _ => true) [0,1,0,0,1,0x61,0,1,9]
    (by decide)).mp fun e he => ?_⟩
  rw [hrefused] at he
  exact (Except.error.inj he).symm

/-- A length that leads out of the buffer, and the end of a string of no bytes. -/
theorem bitstreamParseHeader_leaves :
    bitstreamParseHeader (fun _ => true) [0,1,0,0,1,0x61,0xff,0xff,0] = .error (.outside 9) ∧
      bitstreamParseHeader (fun _ => true) [0,1,0,0,1,0x61,0,0,0] =
        .error (.refused .emptyString) := by
  decide +kernel

end DmaCamera
