import DmaCamera.Library.Readers
import DmaCamera.Registers
set_option autoImplicit false

namespace DmaCamera
open Readers

structure XHwIcapBitHeader where
  headerLength : U32
  bitstreamLength : U32
  designName : List Byte
  partName : List Byte
  date : List Byte
  time : List Byte
  magicLength : U32
  deriving DecidableEq, Repr

/-- How `bitstream_parse_header` fails: it returns -1, it writes to a string that was
not allocated, or it looks for the end of a string of no bytes. -/
inductive HeaderFault where
  | invalid | noString | emptyString
  deriving DecidableEq, Repr

def xhiEvenMagicByte : Byte := 0x0f
def xhiOddMagicByte : Byte := 0xf0

def tagA : Byte := 0x61
def tagB : Byte := 0x62
def tagC : Byte := 0x63
def tagD : Byte := 0x64
def tagE : Byte := 0x65

def shiftIn (w : U32) (b : Byte) : U32 := (w <<< 8) ||| b.setWidth 32

/-- A buffer, under an index that wraps. -/
def tapeOf (data : List Byte) (i : Nat) : Option Byte := data[i % 2^32]?

abbrev HeaderReader (α : Type) := Reader HeaderFault α

section parse

variable (tape : Nat → Option Byte)

def readHalfWord : HeaderReader U32 := do
  let hi ← next tape
  let lo ← next tape
  pure (shiftIn (hi.setWidth 32) lo)

def readMagicBytes : Nat → Nat → HeaderReader Unit
  | 0, _ => pure ()
  | n+1, i => do
    let tmp ← next tape
    if ¬ (i % 2 = 0 ∧ tmp ≠ xhiEvenMagicByte) ∧ ¬ (i % 2 = 1 ∧ tmp ≠ xhiOddMagicByte) then
      readMagicBytes n (i+1)
    else refuse .invalid

def readMagic : HeaderReader U32 := do
  let magicLength ← readHalfWord tape
  readMagicBytes tape (magicLength-1).toNat 0
  let _ ← next tape
  pure magicLength

def readOne : HeaderReader Unit := do
  let tmp ← readHalfWord tape
  if tmp = 1 then pure () else refuse .invalid

/-- One of the strings; `kmalloc` says whether there is memory for it. -/
def readString (kmalloc : Byte → Bool) (tag : Byte) : HeaderReader (List Byte) := do
  let tmp ← next tape
  if tmp = tag then do
    let len ← readHalfWord tape
    if kmalloc tag = true then do
      let s ← items tape len.toNat
      if s ≠ [] then
        if s.getLast? = some 0 then pure s else refuse .invalid
      else refuse .emptyString
    else refuse .noString
  else refuse .invalid

def readLength : HeaderReader U32 := do
  let tmp ← next tape
  if tmp = tagE then do
    let b₀ ← next tape
    let b₁ ← next tape
    let b₂ ← next tape
    let b₃ ← next tape
    pure (shiftIn (shiftIn (shiftIn (b₀.setWidth 32) b₁) b₂) b₃)
  else refuse .invalid

def readHeader (kmalloc : Byte → Bool) : HeaderReader XHwIcapBitHeader := do
  let magicLength ← readMagic tape
  readOne tape
  let designName ← readString tape kmalloc tagA
  let partName ← readString tape kmalloc tagB
  let date ← readString tape kmalloc tagC
  let time ← readString tape kmalloc tagD
  let bitstreamLength ← readLength tape
  pure ⟨0,bitstreamLength,designName,partName,date,time,magicLength⟩

end parse

def XHwIcapBitHeader.withLength (header : XHwIcapBitHeader) (index : Nat) : XHwIcapBitHeader :=
  { header with headerLength := BitVec.ofNat 32 index }

/-- The length of the header is where the index ends. -/
def bitstreamParseHeader (kmalloc : Byte → Bool) (data : List Byte) :
    Except (Stop HeaderFault) XHwIcapBitHeader :=
  match readHeader (tapeOf data) kmalloc 0 with
  | .error e => .error e
  | .ok (header,index) => .ok (header.withLength index)

structure CString where
  bytes : List Byte
  ends : bytes.getLast? = some 0
  length_lt : bytes.length < 2^16

def word16 (n : Nat) : List Byte := [BitVec.ofNat 8 (n/256),BitVec.ofNat 8 n]
def word32 (w : U32) : List Byte :=
  [w.extractLsb' 24 8,w.extractLsb' 16 8,w.extractLsb' 8 8,w.extractLsb' 0 8]

def CString.encode (s : CString) (tag : Byte) : List Byte := tag :: word16 s.bytes.length ++ s.bytes

def magicByte (i : Nat) : Byte := if i % 2 = 0 then xhiEvenMagicByte else xhiOddMagicByte

def magicBytes (n : Nat) : List Byte := (List.range n).map magicByte

def magicText (magicLength : Nat) (filler : Byte) : List Byte :=
  word16 magicLength ++ magicBytes (magicLength-1) ++ [filler]

structure BitHeader where
  magicLength : Nat
  magicLength_pos : 1 ≤ magicLength
  magicLength_lt : magicLength < 2^16
  designName : CString
  partName : CString
  date : CString
  time : CString
  bitstreamLength : U32

def BitHeader.encode (h : BitHeader) (filler : Byte) : List Byte :=
  magicText h.magicLength filler ++ [0,1] ++ h.designName.encode tagA ++ h.partName.encode tagB ++
    h.date.encode tagC ++ h.time.encode tagD ++ tagE :: word32 h.bitstreamLength

def BitHeader.fields (h : BitHeader) : XHwIcapBitHeader where
  headerLength := BitVec.ofNat 32 (h.encode 0).length
  bitstreamLength := h.bitstreamLength
  designName := h.designName.bytes
  partName := h.partName.bytes
  date := h.date.bytes
  time := h.time.bytes
  magicLength := BitVec.ofNat 32 h.magicLength

theorem shiftIn_toNat (w : U32) (b : Byte) : (shiftIn w b).toNat = (256*w.toNat+b.toNat) % 2^32 := by
  have hb : (b.setWidth 32).toNat = b.toNat := by
    rw [BitVec.toNat_setWidth]
    exact Nat.mod_eq_of_lt (Nat.lt_of_lt_of_le b.isLt (by decide))
  have hw : (w <<< 8).toNat = 2^8*(w.toNat % 2^24) := by
    rw [BitVec.toNat_shiftLeft, Nat.shiftLeft_eq]
    omega
  have hlt := b.isLt
  rw [shiftIn, BitVec.toNat_or, hb, hw, ← Nat.two_pow_add_eq_or_of_lt b.isLt]
  omega

theorem halfWord_toNat (hi lo : Byte) :
    (shiftIn (hi.setWidth 32) lo).toNat = 256*hi.toNat+lo.toNat := by
  have hhi : (hi.setWidth 32).toNat = hi.toNat := by
    rw [BitVec.toNat_setWidth]
    exact Nat.mod_eq_of_lt (Nat.lt_of_lt_of_le hi.isLt (by decide))
  have h₁ := hi.isLt
  have h₂ := lo.isLt
  rw [shiftIn_toNat, hhi]
  exact Nat.mod_eq_of_lt (by omega)

theorem halfWord_iff {hi lo : Byte} {w : U32} :
    w = shiftIn (hi.setWidth 32) lo ↔ w.toNat < 2^16 ∧ [hi,lo] = word16 w.toNat := by
  have hnat := halfWord_toNat hi lo
  have h₁ := hi.isLt
  have h₂ := lo.isLt
  constructor
  · rintro rfl
    rw [hnat]
    refine ⟨by omega,?_⟩
    simp only [word16, List.cons.injEq, and_true]
    refine ⟨BitVec.eq_of_toNat_eq ?_,BitVec.eq_of_toNat_eq ?_⟩
    · rw [BitVec.toNat_ofNat]
      omega
    · rw [BitVec.toNat_ofNat]
      omega
  · rintro ⟨hlt,heq⟩
    simp only [word16, List.cons.injEq, and_true] at heq
    apply BitVec.eq_of_toNat_eq
    rw [hnat, heq.1, heq.2, BitVec.toNat_ofNat, BitVec.toNat_ofNat]
    omega

theorem word_iff {b₀ b₁ b₂ b₃ : Byte} {w : U32} :
    w = shiftIn (shiftIn (shiftIn (b₀.setWidth 32) b₁) b₂) b₃ ↔ [b₀,b₁,b₂,b₃] = word32 w := by
  have h₀ : (b₀.setWidth 32).toNat = b₀.toNat := by
    rw [BitVec.toNat_setWidth]
    exact Nat.mod_eq_of_lt (Nat.lt_of_lt_of_le b₀.isLt (by decide))
  have hnat : (shiftIn (shiftIn (shiftIn (b₀.setWidth 32) b₁) b₂) b₃).toNat =
      256*(256*(256*b₀.toNat+b₁.toNat)+b₂.toNat)+b₃.toNat := by
    have := b₀.isLt
    have := b₁.isLt
    have := b₂.isLt
    have := b₃.isLt
    simp only [shiftIn_toNat, h₀]
    omega
  have hbytes : [b₀,b₁,b₂,b₃] = word32 w ↔ b₀.toNat = w.toNat/2^24 % 2^8 ∧
      b₁.toNat = w.toNat/2^16 % 2^8 ∧ b₂.toNat = w.toNat/2^8 % 2^8 ∧ b₃.toNat = w.toNat % 2^8 := by
    simp [word32, ← BitVec.toNat_inj, BitVec.extractLsb'_toNat, Nat.shiftRight_eq_div_pow]
  rw [hbytes, ← BitVec.toNat_inj, hnat]
  have := b₀.isLt
  have := b₁.isLt
  have := b₂.isLt
  have := b₃.isLt
  have := w.isLt
  omega

variable {tape : Nat → Option Byte}

theorem readHalfWord_reads : Reads tape (readHalfWord tape)
    (fun w bs => w.toNat < 2^16 ∧ bs = word16 w.toNat) fun _ _ => False := by
  have hlo (hi : Byte) : Reads (ε := HeaderFault) tape
      (next tape >>= fun lo => pure (shiftIn (hi.setWidth 32) lo))
      (fun w bs => ∃ lo, bs = [lo] ∧ w = shiftIn (hi.setWidth 32) lo) fun _ _ => False :=
    reads_next.map fun lo : Byte => shiftIn (hi.setWidth 32) lo
  refine (reads_next.bind hlo).congr (fun w bs => ?_) (fun e bs => by simp)
  constructor
  · rintro ⟨hi,as,cs,rfl,⟨lo,rfl,hw⟩,rfl⟩
    exact halfWord_iff.mp hw
  · rintro ⟨hlt,rfl⟩
    exact ⟨_,_,_,rfl,⟨_,rfl,halfWord_iff.mpr ⟨hlt,rfl⟩⟩,rfl⟩

def magicFrom (i n : Nat) : List Byte := (List.range' i n).map magicByte

theorem magicFrom_zero (n : Nat) : magicFrom 0 n = magicBytes n := by
  rw [magicFrom, magicBytes, List.range_eq_range']

theorem magicFrom_succ (i n : Nat) : magicFrom i (n+1) = magicByte i :: magicFrom (i+1) n := rfl

theorem magicTest_iff {i : Nat} {tmp : Byte} :
    (¬ (i % 2 = 0 ∧ tmp ≠ xhiEvenMagicByte) ∧ ¬ (i % 2 = 1 ∧ tmp ≠ xhiOddMagicByte)) ↔
      tmp = magicByte i := by
  unfold magicByte
  rcases Nat.mod_two_eq_zero_or_one i with h | h <;> simp [h]

theorem readMagicBytes_reads (n i : Nat) : Reads tape (readMagicBytes tape n i)
    (fun _ bs => bs = magicFrom i n)
    fun e bs => e = .invalid ∧ ∃ k < n, ∃ b, b ≠ magicByte (i+k) ∧ bs = magicFrom i k ++ [b] := by
  induction n generalizing i with
  | zero =>
    refine (reads_pure ()).congr (fun _ bs => ?_) (fun e bs => by simp)
    simp [magicFrom]
  | succ n ih =>
    refine (reads_next.bind fun b => reads_guard _ _ fun _ => ih (i+1)).congr
      (fun _ bs => ?_) (fun e bs => ?_)
    · constructor
      · rintro ⟨b,as,cs,rfl,⟨hb,rfl⟩,rfl⟩
        rw [magicFrom_succ, magicTest_iff.mp hb]
        rfl
      · rintro rfl
        exact ⟨_,_,_,rfl,⟨magicTest_iff.mpr rfl,rfl⟩,rfl⟩
    · constructor
      · rintro (h | ⟨b,as,cs,rfl,h,rfl⟩)
        · exact h.elim
        · split at h
          · rename_i hb
            obtain ⟨rfl,k,hk,c,hc,rfl⟩ := h
            refine ⟨rfl,k+1,by omega,c,?_,?_⟩
            · rwa [Nat.add_assoc, Nat.add_comm 1] at hc
            · rw [magicFrom_succ, magicTest_iff.mp hb]
              rfl
          · rename_i hb
            obtain ⟨rfl,rfl⟩ := h
            exact ⟨rfl,0,Nat.succ_pos n,b,mt magicTest_iff.mpr hb,rfl⟩
      · rintro ⟨rfl,k,hk,c,hc,rfl⟩
        cases k with
        | zero =>
          rw [Nat.add_zero] at hc
          refine Or.inr ⟨c,[c],[],rfl,?_,rfl⟩
          rw [if_neg (mt magicTest_iff.mp hc)]
          exact ⟨rfl,rfl⟩
        | succ k =>
          refine Or.inr ⟨magicByte i,[magicByte i],magicFrom (i+1) k ++ [c],rfl,?_,?_⟩
          · rw [if_pos (magicTest_iff.mpr rfl)]
            refine ⟨rfl,k,by omega,c,?_,rfl⟩
            rwa [Nat.add_assoc, Nat.add_comm 1]
          · rw [magicFrom_succ]
            rfl

theorem readMagic_reads : Reads tape (readMagic tape)
    (fun w bs => w.toNat < 2^16 ∧
      ∃ filler, bs = word16 w.toNat ++ magicBytes (w-1).toNat ++ [filler])
    fun e bs => e = .invalid ∧ ∃ w : U32, w.toNat < 2^16 ∧
      ∃ k < (w-1).toNat, ∃ b, b ≠ magicByte k ∧ bs = word16 w.toNat ++ magicBytes k ++ [b] := by
  have htail (w : U32) : Reads (ε := HeaderFault) tape (next tape >>= fun _ => pure w)
      (fun x bs => ∃ b, bs = [b] ∧ x = w) fun _ _ => False :=
    reads_next.map fun _ : Byte => w
  refine (readHalfWord_reads.bind fun w => (readMagicBytes_reads (w-1).toNat 0).bind fun _ =>
    htail w).congr (fun w bs => ?_) (fun e bs => ?_)
  · constructor
    · rintro ⟨w',as,cs,⟨hlt,rfl⟩,⟨_,ms,fs,rfl,⟨b,rfl,rfl⟩,rfl⟩,rfl⟩
      exact ⟨hlt,b,by rw [magicFrom_zero, List.append_assoc]⟩
    · rintro ⟨hlt,b,rfl⟩
      refine ⟨w,_,_,⟨hlt,rfl⟩,⟨(),_,_,rfl,⟨b,rfl,rfl⟩,rfl⟩,?_⟩
      rw [magicFrom_zero, List.append_assoc]
  · constructor
    · rintro (h | ⟨w,as,cs,⟨hlt,rfl⟩,⟨rfl,k,hk,b,hb,rfl⟩ | ⟨_,_,_,_,h,_⟩,rfl⟩)
      · exact h.elim
      · rw [Nat.zero_add] at hb
        exact ⟨rfl,w,hlt,k,hk,b,hb,by rw [magicFrom_zero, List.append_assoc]⟩
      · exact h.elim
    · rintro ⟨rfl,w,hlt,k,hk,b,hb,rfl⟩
      refine Or.inr ⟨w,_,_,⟨hlt,rfl⟩,Or.inl ⟨rfl,k,hk,b,?_,rfl⟩,?_⟩
      · rwa [Nat.zero_add]
      · rw [magicFrom_zero, List.append_assoc]

theorem readOne_reads : Reads tape (readOne tape) (fun _ bs => bs = [0,1])
    fun e bs => e = .invalid ∧ ∃ hi lo : Byte, [hi,lo] ≠ [0,1] ∧ bs = [hi,lo] := by
  have hone : word16 (1 : U32).toNat = [0,1] := by decide
  have hword {w : U32} (hlt : w.toNat < 2^16) : word16 w.toNat = [0,1] ↔ w = 1 := by
    constructor
    · intro h
      have hw := halfWord_iff.mpr ⟨hlt,h.symm⟩
      rw [hw]
      decide
    · rintro rfl
      exact hone
  refine (readHalfWord_reads.bind fun w => reads_guard (w = 1) .invalid fun _ =>
    reads_pure ()).congr (fun _ bs => ?_) (fun e bs => ?_)
  · constructor
    · rintro ⟨w,as,cs,⟨hlt,rfl⟩,⟨rfl,_,rfl⟩,rfl⟩
      exact hone
    · rintro rfl
      exact ⟨1,_,_,⟨by decide,rfl⟩,⟨rfl,rfl,rfl⟩,hone.symm⟩
  · constructor
    · rintro (h | ⟨w,as,cs,⟨hlt,rfl⟩,h,rfl⟩)
      · exact h.elim
      · split at h
        · exact h.elim
        · rename_i hw
          obtain ⟨rfl,rfl⟩ := h
          exact ⟨rfl,_,_,mt (hword hlt).mp hw,rfl⟩
    · rintro ⟨rfl,hi,lo,hne,rfl⟩
      obtain ⟨hlt,hbytes⟩ := halfWord_iff.mp (@rfl _ (shiftIn (hi.setWidth 32) lo))
      refine Or.inr ⟨_,_,[],⟨hlt,hbytes⟩,?_,rfl⟩
      have hw : shiftIn (hi.setWidth 32) lo ≠ 1 := fun h => hne (hbytes.trans ((hword hlt).mpr h))
      rw [if_neg hw]
      exact ⟨rfl,rfl⟩

theorem readLength_reads : Reads tape (readLength tape) (fun w bs => bs = tagE :: word32 w)
    fun e bs => e = .invalid ∧ ∃ b, b ≠ tagE ∧ bs = [b] := by
  have hlast (b₀ b₁ b₂ : Byte) : Reads (ε := HeaderFault) tape
      (next tape >>= fun b₃ => pure (shiftIn (shiftIn (shiftIn (b₀.setWidth 32) b₁) b₂) b₃))
      (fun w bs => ∃ b₃, bs = [b₃] ∧ w = shiftIn (shiftIn (shiftIn (b₀.setWidth 32) b₁) b₂) b₃)
      fun _ _ => False :=
    reads_next.map fun b₃ : Byte => shiftIn (shiftIn (shiftIn (b₀.setWidth 32) b₁) b₂) b₃
  have hword : Reads (ε := HeaderFault) tape (next tape >>= fun b₀ => next tape >>= fun b₁ =>
      next tape >>= fun b₂ => next tape >>= fun b₃ =>
        pure (shiftIn (shiftIn (shiftIn (b₀.setWidth 32) b₁) b₂) b₃))
      (fun w bs => bs = word32 w) fun _ _ => False := by
    refine (reads_next.bind fun b₀ => reads_next.bind fun b₁ => reads_next.bind fun b₂ =>
      hlast b₀ b₁ b₂).congr (fun w bs => ?_) (fun e bs => by simp)
    constructor
    · rintro ⟨b₀,_,_,rfl,⟨b₁,_,_,rfl,⟨b₂,_,_,rfl,⟨b₃,rfl,hw⟩,rfl⟩,rfl⟩,rfl⟩
      exact word_iff.mp hw
    · rintro rfl
      exact ⟨_,_,_,rfl,⟨_,_,_,rfl,⟨_,_,_,rfl,⟨_,rfl,word_iff.mpr rfl⟩,rfl⟩,rfl⟩,rfl⟩
  refine (reads_next.bind fun b => reads_guard (b = tagE) .invalid fun _ => hword).congr
    (fun w bs => ?_) (fun e bs => ?_)
  · constructor
    · rintro ⟨b,as,cs,rfl,⟨rfl,rfl⟩,rfl⟩
      rfl
    · rintro rfl
      exact ⟨tagE,_,_,rfl,⟨rfl,rfl⟩,rfl⟩
  · constructor
    · rintro (h | ⟨b,as,cs,rfl,h,rfl⟩)
      · exact h.elim
      · split at h
        · exact h.elim
        · rename_i hb
          obtain ⟨rfl,rfl⟩ := h
          exact ⟨rfl,b,hb,rfl⟩
    · rintro ⟨rfl,b,hb,rfl⟩
      refine Or.inr ⟨b,[b],[],rfl,?_,rfl⟩
      rw [if_neg hb]
      exact ⟨rfl,rfl⟩

section strings

variable (kmalloc : Byte → Bool) (tag : Byte)

def stringWrong : HeaderFault → List Byte → Prop
  | .invalid, bs => (∃ b, b ≠ tag ∧ bs = [b]) ∨ kmalloc tag = true ∧ ∃ s, s ≠ [] ∧
      s.length < 2^16 ∧ s.getLast? ≠ some 0 ∧ bs = tag :: word16 s.length ++ s
  | .noString, bs => kmalloc tag = false ∧ ∃ n < 2^16, bs = tag :: word16 n
  | .emptyString, bs => kmalloc tag = true ∧ bs = tag :: word16 0

variable {kmalloc tag}

theorem stringBytes_reads (n : Nat) : Reads (ε := HeaderFault) tape
    (items tape n >>= fun s =>
      if s ≠ [] then if s.getLast? = some 0 then pure s else refuse .invalid else refuse .emptyString)
    (fun s bs => bs = s ∧ s.length = n ∧ s.getLast? = some 0)
    fun e bs => e = .emptyString ∧ n = 0 ∧ bs = [] ∨
      e = .invalid ∧ bs ≠ [] ∧ bs.length = n ∧ bs.getLast? ≠ some 0 := by
  refine ((reads_items n).bind fun s => reads_guard (s ≠ []) HeaderFault.emptyString fun _ =>
    reads_guard (s.getLast? = some 0) HeaderFault.invalid fun _ => reads_pure s).congr
    (fun s bs => ?_) (fun e bs => ?_)
  · constructor
    · rintro ⟨s',as,cs,⟨rfl,hlen⟩,⟨_,hlast,rfl,rfl⟩,rfl⟩
      exact ⟨List.append_nil _,hlen,hlast⟩
    · rintro ⟨rfl,hlen,hlast⟩
      refine ⟨bs,bs,[],⟨rfl,hlen⟩,⟨?_,hlast,rfl,rfl⟩,(List.append_nil _).symm⟩
      rintro rfl
      cases hlast
  · constructor
    · rintro (h | ⟨s,as,cs,⟨rfl,hlen⟩,h,rfl⟩)
      · exact h.elim
      · split at h
        · rename_i hne
          split at h
          · exact h.elim
          · rename_i hlast
            obtain ⟨rfl,rfl⟩ := h
            rw [List.append_nil]
            exact Or.inr ⟨rfl,hne,hlen,hlast⟩
        · rename_i hnil
          obtain ⟨rfl,rfl⟩ := h
          rw [not_not] at hnil
          subst hnil
          exact Or.inl ⟨rfl,hlen.symm,rfl⟩
    · rintro (⟨rfl,rfl,rfl⟩ | ⟨rfl,hne,hlen,hlast⟩)
      · refine Or.inr ⟨[],[],[],⟨rfl,rfl⟩,?_,rfl⟩
        rw [if_neg (not_not.mpr rfl)]
        exact ⟨rfl,rfl⟩
      · refine Or.inr ⟨bs,bs,[],⟨rfl,hlen⟩,?_,(List.append_nil _).symm⟩
        rw [if_pos hne, if_neg hlast]
        exact ⟨rfl,rfl⟩

theorem word_toNat {n : Nat} (hn : n < 2^16) : (BitVec.ofNat 32 n).toNat = n := by
  rw [BitVec.toNat_ofNat]
  omega

theorem readString_reads : Reads tape (readString tape kmalloc tag)
    (fun s bs => kmalloc tag = true ∧ s.getLast? = some 0 ∧ s.length < 2^16 ∧
      bs = tag :: word16 s.length ++ s)
    (stringWrong kmalloc tag) := by
  refine (reads_next.bind fun b => reads_guard (b = tag) .invalid fun _ =>
    readHalfWord_reads.bind fun len => reads_guard (kmalloc tag = true) .noString fun _ =>
      stringBytes_reads len.toNat).congr (fun s bs => ?_) (fun e bs => ?_)
  · constructor
    · rintro ⟨b,_,_,rfl,⟨rfl,len,_,_,⟨hlt,rfl⟩,⟨halloc,rfl,hlen,hlast⟩,rfl⟩,rfl⟩
      rw [← hlen] at hlt ⊢
      exact ⟨halloc,hlast,hlt,rfl⟩
    · rintro ⟨halloc,hlast,hlt,rfl⟩
      have hlen := word_toNat hlt
      refine ⟨tag,_,_,rfl,⟨rfl,BitVec.ofNat 32 s.length,_,_,⟨?_,rfl⟩,
        ⟨halloc,rfl,hlen.symm,hlast⟩,rfl⟩,?_⟩
      · rwa [hlen]
      · rw [hlen]
        rfl
  · constructor
    · rintro (h | ⟨b,_,_,rfl,h,rfl⟩)
      · exact h.elim
      split at h
      · rename_i hb
        subst hb
        obtain h | ⟨len,_,_,⟨hlt,rfl⟩,h,rfl⟩ := h
        · exact h.elim
        split at h
        · rename_i halloc
          obtain ⟨rfl,hzero,rfl⟩ | ⟨rfl,hne,hlen,hlast⟩ := h
          · rw [hzero, List.append_nil]
            exact ⟨halloc,rfl⟩
          · rw [← hlen] at hlt ⊢
            exact Or.inr ⟨halloc,_,hne,hlt,hlast,rfl⟩
        · rename_i halloc
          obtain ⟨rfl,rfl⟩ := h
          rw [List.append_nil]
          exact ⟨Bool.eq_false_iff.mpr halloc,_,hlt,rfl⟩
      · rename_i hb
        obtain ⟨rfl,rfl⟩ := h
        exact Or.inl ⟨b,hb,rfl⟩
    · intro h
      cases e with
      | invalid =>
        obtain ⟨b,hb,rfl⟩ | ⟨halloc,s,hne,hlt,hlast,rfl⟩ := h
        · refine Or.inr ⟨b,[b],[],rfl,?_,rfl⟩
          rw [if_neg hb]
          exact ⟨rfl,rfl⟩
        · refine Or.inr ⟨tag,[tag],word16 s.length ++ s,rfl,?_,rfl⟩
          rw [if_pos rfl]
          refine Or.inr ⟨BitVec.ofNat 32 s.length,word16 s.length,s,?_,?_,rfl⟩
          · rw [word_toNat hlt]
            exact ⟨hlt,rfl⟩
          · rw [if_pos halloc, word_toNat hlt]
            exact Or.inr ⟨rfl,hne,rfl,hlast⟩
      | noString =>
        obtain ⟨halloc,n,hlt,rfl⟩ := h
        refine Or.inr ⟨tag,[tag],word16 n,rfl,?_,rfl⟩
        rw [if_pos rfl]
        refine Or.inr ⟨BitVec.ofNat 32 n,word16 n,[],?_,?_,(List.append_nil _).symm⟩
        · rw [word_toNat hlt]
          exact ⟨hlt,rfl⟩
        · rw [if_neg (Bool.eq_false_iff.mp halloc)]
          exact ⟨rfl,rfl⟩
      | emptyString =>
        obtain ⟨halloc,rfl⟩ := h
        refine Or.inr ⟨tag,[tag],word16 0,rfl,?_,rfl⟩
        rw [if_pos rfl]
        refine Or.inr ⟨0,word16 0,[],⟨by decide,rfl⟩,?_,rfl⟩
        rw [if_pos halloc]
        exact Or.inl ⟨rfl,rfl,rfl⟩

end strings

end DmaCamera
