import DmaCamera.DmaMemory
import DmaCamera.Library.RandomAccess
set_option autoImplicit false

namespace DmaCamera
open Spans Copying RandomAccess Runs

/-! The device's memory behind the nodes of memory-mapped engines, one call at a time. -/

def uintMax : Int := 0xffffffff

def seekTo (fPos newpos : Int) : Int × Int :=
  if newpos < 0 then (-eInval,fPos) else (newpos,newpos)

def charSgdmaLlseek (fPos off whence : Int) : Int × Int :=
  if whence = 0 then seekTo fPos off
  else if whence = 1 then seekTo fPos (Int.bmod (fPos+off) (2^64))
  else if whence = 2 then seekTo fPos (Int.bmod (uintMax+off) (2^64))
  else (-eInval,fPos)

/-- A node of a memory-mapped engine in incremental mode. -/
structure SgdmaNode where
  dirToDev : Bool
  alignment : Alignment

def SgdmaNode.mode (node : SgdmaNode) : AlignMode := ⟨false,false,node.alignment⟩

structure FileState where
  memories : Memories
  fPos : Nat → Int

/-- A buffer that a call is given, page `i` of it at `dma i`, and what its request meets. -/
structure RequestBuffer where
  buf : Nat
  count : Nat
  dma : Nat → U64
  env : Nat → ChunkEnv

def RequestBuffer.place (b : RequestBuffer) (k : Nat) : U64 :=
  Spans.translate pageSize b.dma (b.buf+k)

/-- Every transfer of the request has completed when its wait ends. One that is
interrupted stays on the engine, and the device goes on with it after the call. -/
def RequestBuffer.Settled (b : RequestBuffer) : Prop := ∀ i, (b.env i).state = .completed

inductive FileOp where
  | llseek (file : Nat) (off whence ret : Int)
  | write (file : Nat) (b : RequestBuffer) (ret : Int)
  | read (file : Nat) (b : RequestBuffer) (ret : Int)
  | store (host : U64 → Byte)

/-- What the kernel makes of `*pos` behind a call: `f_pos`, except that it may
leave `f_pos` alone after an error. -/
def StoresPos (ret fPos pos' p : Int) : Prop := p = pos' ∨ (ret < 0 ∧ p = fPos)

/-- The device has executed the descriptors of the transfers that have completed. -/
inductive FileStep (node : Nat → SgdmaNode) : FileState → FileOp → FileState → Prop
  | llseek (s : FileState) (file : Nat) (off whence : Int) :
      FileStep node s (.llseek file off whence (charSgdmaLlseek (s.fPos file) off whence).1)
        { s with
          fPos := Function.update s.fPos file (charSgdmaLlseek (s.fPos file) off whence).2 }
  | write (s : FileState) (file : Nat) (b : RequestBuffer) (ret pos' p : Int)
      (built : List XdmaTransfer) :
      charSgdmaReadWrite (node file).dirToDev (node file).mode b.env b.buf b.count (s.fPos file)
        true = .ok (ret,pos',built) → b.Settled → StoresPos ret (s.fPos file) pos' p →
      FileStep node s (.write file b ret)
        ⟨s.memories.move true (built.flatMap XdmaTransfer.expand),Function.update s.fPos file p⟩
  | read (s : FileState) (file : Nat) (b : RequestBuffer) (ret pos' p : Int)
      (built : List XdmaTransfer) :
      charSgdmaReadWrite (node file).dirToDev (node file).mode b.env b.buf b.count (s.fPos file)
        false = .ok (ret,pos',built) → b.Settled → StoresPos ret (s.fPos file) pos' p →
      FileStep node s (.read file b ret)
        ⟨s.memories.move false (built.flatMap XdmaTransfer.expand),Function.update s.fPos file p⟩
  | store (s : FileState) (host : U64 → Byte) :
      FileStep node s (.store host) ⟨{ s.memories with host := host },s.fPos⟩

/-- What the kernel promises of a buffer: pages of its own, mapped where they are,
and no position that a `loff_t` does not hold. -/
structure RequestBuffer.Promised (b : RequestBuffer) (fPos : Int) : Prop where
  mapped : ∀ i, (b.env i).kernel.MapsPages b.dma
  pages : PagesApart b.dma b.buf b.count
  fits : b.buf+b.count < 2^64
  position : fPos+b.count < 2^63

def promised (s : FileState) : FileOp → Prop
  | .llseek _ off _ _ => -2^63 ≤ off ∧ off < 2^63
  | .write file b _ => b.Promised (s.fPos file)
  | .read file b _ => b.Promised (s.fPos file)
  | .store _ => True

/-! As calls on a file of `2^63` bytes, whose end is taken to be at `UINT_MAX`. -/

def originOf (whence : Int) : Option Origin :=
  if whence = 0 then some .start else if whence = 1 then some .current
  else if whence = 2 then some .finish else none

def resultOf (ret : Int) : Option Nat := if ret < 0 then none else some ret.toNat

def FileOp.event : FileOp → Event Nat U64 Byte
  | .llseek file off whence ret => .seek file (originOf whence) off (resultOf ret)
  | .write file b ret => .write file b.place b.count (resultOf ret)
  | .read file b ret => .read file b.place b.count (resultOf ret)
  | .store host => .store host

def FileState.file (s : FileState) : Machine Nat U64 Byte where
  content n := if n < 2^63 then s.memories.device (BitVec.ofNat 64 n) else 0
  memory := s.memories.host
  position f := (s.fPos f).toNat

abbrev DeviceFileStep :
    Machine Nat U64 Byte → Event Nat U64 Byte → Machine Nat U64 Byte → Prop :=
  Step (2^63) 0xffffffff

structure FileState.Positioned (s : FileState) : Prop where
  nonneg : ∀ f, 0 ≤ s.fPos f
  small : ∀ f, s.fPos f < 2^63

theorem FileState.Positioned.move {s : FileState} (h : s.Positioned) {p : Int} (hlo : 0 ≤ p)
    (hhi : p < 2^63) (m : Memories) (file : Nat) :
    (⟨m,Function.update s.fPos file p⟩ : FileState).Positioned where
  nonneg f := by
    by_cases hf : f = file
    · subst f
      simpa using hlo
    · simpa [hf] using h.nonneg f
  small f := by
    by_cases hf : f = file
    · subst f
      simpa using hhi
    · simpa [hf] using h.small f

theorem FileState.file_move (s : FileState) (file : Nat) (p : Int) :
    FileState.file ⟨s.memories,Function.update s.fPos file p⟩ = s.file.moveTo file p.toNat := by
  simp only [FileState.file, Machine.moveTo, Machine.mk.injEq, true_and]
  funext f
  by_cases hf : f = file
  · subst f
    simp
  · simp [hf]

structure SeeksTo (fPos : Int) (sought : Option Nat) (r : Int × Int) : Prop where
  result : resultOf r.1 = sought
  position : r.2.toNat = sought.getD fPos.toNat
  nonneg : 0 ≤ r.2
  small : r.2 < 2^63

theorem SeeksTo.refused {fPos : Int} (h : 0 ≤ fPos) (h' : fPos < 2^63) :
    SeeksTo fPos none (-eInval,fPos) := ⟨rfl,rfl,h,h'⟩

/-- A sum that a `loff_t` does not hold wraps to a negative one, which is refused. -/
theorem seekTo_within {fPos base off : Int} (h : 0 ≤ fPos) (h' : fPos < 2^63) (hb : 0 ≤ base)
    (hb' : base < 2^63) (hlo : -2^63 ≤ off) (hhi : off < 2^63) :
    SeeksTo fPos (within (2^63) (base+off)) (seekTo fPos (Int.bmod (base+off) (2^64))) := by
  by_cases hin : 0 ≤ base+off ∧ base+off < 2^63
  · have hsame : Int.bmod (base+off) (2^64) = base+off := Int.bmod_eq_of_le (by omega) (by omega)
    have hpos : ¬ base+off < 0 := Int.not_lt.mpr hin.1
    have hwithin : within (2^63) (base+off) = some (base+off).toNat := if_pos (by simpa using hin)
    rw [hsame, hwithin, seekTo, if_neg hpos]
    exact ⟨if_neg hpos,rfl,hin.1,hin.2⟩
  · have hneg : Int.bmod (base+off) (2^64) < 0 := by
      simp only [Int.bmod]
      split <;> omega
    have hwithin : within (2^63) (base+off) = none := if_neg (by simpa using hin)
    rw [hwithin, seekTo, if_pos hneg]
    exact .refused h h'

theorem charSgdmaLlseek_seeks {s : FileState} (h : s.Positioned) (file : Nat) {off : Int}
    (hlo : -2^63 ≤ off) (hhi : off < 2^63) (whence : Int) :
    SeeksTo (s.fPos file) (s.file.sought (2^63) 0xffffffff file (originOf whence) off)
      (charSgdmaLlseek (s.fPos file) off whence) := by
  have hp := h.nonneg file
  have hp' := h.small file
  unfold charSgdmaLlseek originOf Machine.sought
  by_cases h0 : whence = 0
  · have hself : off = Int.bmod (0+off) (2^64) := by rw [Int.zero_add, Int.bmod_eq_of_le hlo hhi]
    rw [if_pos h0, if_pos h0, hself]
    exact hself ▸ seekTo_within hp hp' (Int.le_refl 0) (by norm_num) hlo hhi
  rw [if_neg h0, if_neg h0]
  by_cases h1 : whence = 1
  · have hcur : s.file.base 0xffffffff file .current = s.fPos file := Int.toNat_of_nonneg hp
    rw [if_pos h1, if_pos h1, Option.bind_some, hcur]
    exact seekTo_within hp hp' hp hp' hlo hhi
  rw [if_neg h1, if_neg h1]
  by_cases h2 : whence = 2
  · have hend : s.file.base 0xffffffff file .finish = uintMax := rfl
    rw [if_pos h2, if_pos h2, Option.bind_some, hend]
    exact seekTo_within hp hp' (by decide) (by decide) hlo hhi
  · rw [if_neg h2, if_neg h2]
    exact .refused hp hp'

theorem ssizeT_toNat {count : Nat} (h : count < 2^63) : (ssizeT count).toNat = count := by
  have hmsb : (BitVec.ofNat 64 count).toNat = count := Nat.mod_eq_of_lt (by omega)
  rw [ssizeT, BitVec.toInt_eq_toNat_of_lt (by omega), hmsb, Int.toNat_natCast]

section calls

variable {s : FileState} {b : RequestBuffer} {file done : Nat}

/-- A call returns the whole count, or an error; in any case `*pos` is behind
the bytes that were moved. -/
theorem charSgdmaReadWrite_settled {node : SgdmaNode} {dirToDev : Bool} {pos ret pos' : Int}
    {built : List XdmaTransfer} (hb : b.Promised pos) (hsettled : b.Settled) (hp : 0 ≤ pos)
    (h : charSgdmaReadWrite node.dirToDev node.mode b.env b.buf b.count pos dirToDev =
      .ok (ret,pos',built)) :
    ∃ done ≤ b.count, pos' = pos+done ∧ ((ret = b.count ∧ done = b.count) ∨ ret < 0) ∧
      built.flatMap XdmaTransfer.expand =
        (List.range done).map (requestedMove dirToDev b.dma b.buf pos) := by
  have hpc := hb.position
  rcases charSgdmaReadWrite_outcome h with ⟨rfl,rfl,rfl⟩ | ⟨rfl,_,h⟩
  · exact ⟨0,Nat.zero_le _,(Int.add_zero _).symm,Or.inr (by decide),rfl⟩
  · have hmode : node.mode.nonIncrAddr = false := rfl
    rw [ssizeT_toNat (by omega), hmode] at h
    exact transferData_settled hb.mapped hsettled hb.fits hp hpc h

theorem ofInt_position {pos : Int} (hp : 0 ≤ pos) (k : Nat) :
    BitVec.ofInt 64 (pos+k) = BitVec.ofNat 64 (pos.toNat+k) := by
  have hpos : pos+k = ((pos.toNat+k : Nat) : Int) := by
    rw [Nat.cast_add, Int.toNat_of_nonneg hp]
  rw [hpos, BitVec.ofInt_natCast]

theorem FileState.file_content {p : Int} (hp : 0 ≤ p) {k : Nat} (hk : p+k < 2^63) (m : Memories)
    (fPos : Nat → Int) : (FileState.file ⟨m,fPos⟩).content (p.toNat+k) =
      m.device (BitVec.ofInt 64 (p+k)) := by
  rw [ofInt_position hp]
  exact if_pos (by omega)

theorem RequestBuffer.Promised.place_injective {pos : Int} (hb : b.Promised pos) :
    ∀ i < b.count, ∀ j < b.count, b.place i = b.place j → i = j :=
  fun _ hi _ hj => hb.pages.injective (hb.mapped 0) hi hj

theorem FileState.file_put (h : s.Positioned) (hb : b.Promised (s.fPos file))
    (hd : done ≤ b.count) :
    FileState.file ⟨s.memories.move true
      ((List.range done).map (requestedMove true b.dma b.buf (s.fPos file))),s.fPos⟩ =
      s.file.put file b.place done := by
  have hp := h.nonneg file
  have hfit := hb.position
  have hpos : (s.file.position file : Int) = s.fPos file := Int.toNat_of_nonneg hp
  have hcontent : (FileState.file ⟨s.memories.move true
      ((List.range done).map (requestedMove true b.dma b.buf (s.fPos file))),s.fPos⟩).content =
      copy s.file.memory (pairs b.place (s.file.position file + ·) 0 done) s.file.content := by
    refine eq_copy (fun i _ j _ hij => Nat.add_left_cancel hij) (fun k hk => ?_) fun x hx => ?_
    · have hplaces : ∀ i < done, ∀ j < done,
          BitVec.ofInt 64 (s.fPos file+i) = BitVec.ofInt 64 (s.fPos file+j) → i = j :=
        fun i hi j hj => ofInt_injective hp hfit (by omega) (by omega)
      have hcopied := @copy_pairs _ _ _ _ s.memories.host b.place _ done s.memories.device hplaces k hk
      refine (FileState.file_content hp (by omega) _ s.fPos).trans ?_
      rw [requestedMove_pairs]
      exact hcopied
    · simp only [FileState.file]
      split
      · rename_i hlt
        rw [requestedMove_pairs]
        refine copy_pairs_frame _ fun k hk heq => ?_
        have heq : BitVec.ofNat 64 x = BitVec.ofInt 64 (s.fPos file+k) := heq
        have hval := congrArg BitVec.toNat heq
        rw [ofInt_position hp, BitVec.toNat_ofNat, BitVec.toNat_ofNat] at hval
        have hout := hx k hk
        omega
      · rfl
  exact congrArg (fun c => (⟨c,s.memories.host,s.file.position⟩ : Machine Nat U64 Byte)) hcontent

theorem FileState.file_get (h : s.Positioned) (hb : b.Promised (s.fPos file))
    (hd : done ≤ b.count) :
    FileState.file ⟨s.memories.move false
      ((List.range done).map (requestedMove false b.dma b.buf (s.fPos file))),s.fPos⟩ =
      s.file.get file b.place done := by
  have hp := h.nonneg file
  have hfit := hb.position
  have hplace := hb.place_injective
  have hmemory : (s.memories.move false
      ((List.range done).map (requestedMove false b.dma b.buf (s.fPos file)))).host =
      copy s.file.content (pairs (s.file.position file + ·) b.place 0 done) s.file.memory := by
    rw [requestedMove_pairs]
    refine eq_copy (fun i hi j hj => hplace i (by omega) j (by omega)) (fun k hk => ?_)
      fun a ha => ?_
    · have hplaces : ∀ i < done, ∀ j < done, b.place i = b.place j → i = j :=
        fun i hi j hj => hplace i (by omega) j (by omega)
      have hcopied := @copy_pairs _ _ _ _ s.memories.device
        (fun k => BitVec.ofInt 64 (s.fPos file+k)) b.place done s.memories.host hplaces k hk
      exact hcopied.trans (FileState.file_content hp (by omega) s.memories s.fPos).symm
    · exact copy_pairs_frame _ ha
  exact congrArg (fun m => (⟨s.file.content,m,s.file.position⟩ : Machine Nat U64 Byte)) hmemory

end calls

structure Stored (fPos ret : Int) (count done : Nat) (p : Int) : Prop where
  range : 0 ≤ p ∧ p < 2^63
  whole : resultOf ret = some count ∧ done = count ∧ p.toNat = fPos.toNat+count ∨
    resultOf ret = none ∧ (p.toNat = fPos.toNat ∨ p.toNat = fPos.toNat+done)

theorem StoresPos.stored {fPos ret p : Int} {count done : Nat}
    (h : StoresPos ret fPos (fPos+done) p) (hp : 0 ≤ fPos) (hfit : fPos+count < 2^63)
    (hd : done ≤ count) (hret : (ret = count ∧ done = count) ∨ ret < 0) :
    Stored fPos ret count done p := by
  rcases hret with ⟨rfl,rfl⟩ | hneg
  · have hnonneg : ¬ (done : Int) < 0 := by omega
    obtain rfl : p = fPos+done := h.resolve_right fun hc => hnonneg hc.1
    refine ⟨by omega,Or.inl ⟨?_,rfl,Int.toNat_add_nat hp _⟩⟩
    rw [resultOf, if_neg hnonneg, Int.toNat_natCast]
  · refine ⟨?_,Or.inr ⟨if_pos hneg,?_⟩⟩
    · rcases h with rfl | ⟨_,rfl⟩ <;> omega
    · rcases h with rfl | ⟨_,rfl⟩
      · exact Or.inr (Int.toNat_add_nat hp _)
      · exact Or.inl rfl

section simulation

variable {node : Nat → SgdmaNode} {s t : FileState}

theorem fileStep_simulates {op : FileOp} (h : s.Positioned) (hok : promised s op)
    (hstep : FileStep node s op t) : t.Positioned ∧ DeviceFileStep s.file op.event t.file := by
  cases hstep with
  | llseek file off whence =>
    have hseek := charSgdmaLlseek_seeks h file hok.1 hok.2 whence
    refine ⟨h.move hseek.nonneg hseek.small s.memories file,?_⟩
    have hevent := @Step.seek Nat U64 Byte _ _ (2^63) 0xffffffff s.file file (originOf whence) off
    rw [FileOp.event, hseek.result, s.file_move, hseek.position]
    exact hevent
  | write file b ret pos' p built hcall hsettled hpos =>
    have hp := h.nonneg file
    obtain ⟨done,hd,rfl,hret,hmoves⟩ := charSgdmaReadWrite_settled hok hsettled hp hcall
    have hstored := hpos.stored hp hok.position hd hret
    refine ⟨h.move hstored.range.1 hstored.range.2 _ file,?_⟩
    have hput := FileState.file_put h hok hd
    rw [FileOp.event, hmoves, FileState.file_move ⟨_,s.fPos⟩, hput]
    rcases hstored.whole with ⟨hresult,rfl,hplace⟩ | ⟨hresult,hplace⟩
    · rw [hresult, hplace]
      exact Step.write s.file file b.place b.count
    · rw [hresult]
      exact Step.writeFails s.file file b.place b.count done p.toNat hd hplace
  | read file b ret pos' p built hcall hsettled hpos =>
    have hp := h.nonneg file
    obtain ⟨done,hd,rfl,hret,hmoves⟩ := charSgdmaReadWrite_settled hok hsettled hp hcall
    have hstored := hpos.stored hp hok.position hd hret
    refine ⟨h.move hstored.range.1 hstored.range.2 _ file,?_⟩
    have hget := FileState.file_get h hok hd
    rw [FileOp.event, hmoves, FileState.file_move ⟨_,s.fPos⟩, hget]
    rcases hstored.whole with ⟨hresult,rfl,hplace⟩ | ⟨hresult,hplace⟩
    · rw [hresult, hplace]
      exact Step.read s.file file b.place b.count
    · rw [hresult]
      exact Step.readFails s.file file b.place b.count done p.toNat hd hplace
  | store host => exact ⟨⟨h.nonneg,h.small⟩,Step.store s.file host⟩

def FileOp.spares (lo : Int) (n : Nat) (s : FileState) : FileOp → Prop
  | .write file b _ => s.fPos file+b.count ≤ lo ∨ lo+n ≤ s.fPos file
  | _ => True

theorem FileOp.spares_writes {lo : Int} {n k : Nat} {op : FileOp} (hlo : 0 ≤ lo)
    (h : s.Positioned) (hop : op.spares lo n s) (hk : k < n) :
    ¬ op.event.writes s.file (lo.toNat+k) := by
  cases op with
  | write file b ret =>
    have hp := h.nonneg file
    have hto : (s.file.position file : Int) = s.fPos file := Int.toNat_of_nonneg hp
    rintro ⟨hwlo,hwhi⟩
    rcases hop with hop | hop <;> omega
  | _ => exact id

end simulation

theorem charSgdmaReadWrite_completes {node : SgdmaNode} {b : RequestBuffer} {pos : Int}
    (hb : b.Promised pos) (hk : ∀ i, (b.env i).kernel.Maps b.dma) (hsettled : b.Settled)
    (hp : 0 ≤ pos) (halign : checkTransferAlign node.mode b.buf b.count pos true = 0) :
    ∃ pos' built, charSgdmaReadWrite node.dirToDev node.mode b.env b.buf b.count pos
      node.dirToDev = .ok (b.count,pos',built) := by
  have hpc := hb.position
  have hmode : node.mode.nonIncrAddr = false := rfl
  have h0 : Moved node.dirToDev b.dma b.buf b.count pos ⟨0,0,b.buf,b.count,pos,[]⟩ :=
    ⟨rfl,rfl,Nat.zero_add _,(Int.add_zero _).symm,by simp,rfl⟩
  obtain ⟨t,hloop,hm,hr⟩ := transferDataLoop_moved hk hsettled hb.fits hp hpc 0 _ h0
  have hdone : t.done = b.count := by
    have hleft := hm.left
    omega
  refine ⟨t.pos,t.built,?_⟩
  simp only [charSgdmaReadWrite, ne_eq, not_true_eq_false, if_false, halign,
    ssizeT_toNat (show b.count < 2^63 by omega), hmode, transferData, hloop, hm.res, hdone]

def bothNodes (file : Nat) : SgdmaNode := ⟨file == 0,⟨1,1⟩⟩

def pagesAt (buf count : Nat) : RequestBuffer :=
  ⟨buf,count,fun page => BitVec.ofNat 64 (page*pageSize),completingEnv⟩

theorem identityPages_mapped (i : Nat) :
    (completingEnv i).kernel.MapsPages fun page => BitVec.ofNat 64 (page*pageSize) where
  pciMapSg := (identityKernel_maps i).pciMapSg
  aligned page := by
    rw [BitVec.toNat_ofNat]
    unfold pageSize
    omega

theorem pagesAt_promised {buf count : Nat} {pos : Int} (hfits : buf+count < 2^64)
    (hposition : pos+count < 2^63) : (pagesAt buf count).Promised pos where
  mapped := identityPages_mapped
  pages := identityPages buf count hfits
  fits := hfits
  position := hposition

def zeroFile : FileState := ⟨⟨fun a => a.extractLsb' 0 8,fun _ => 0⟩,fun _ => 0⟩

theorem zeroFile_positioned : zeroFile.Positioned where
  nonneg _ := Int.le_refl 0
  small _ := by norm_num [zeroFile]

theorem zeroFile_write : ∃ s',
    FileStep bothNodes zeroFile (.write 0 (pagesAt 0x10800 8192) 8192) s' ∧ s'.fPos 1 = 0 := by
  obtain ⟨pos',xs,hcall⟩ := @charSgdmaReadWrite_completes (bothNodes 0) (pagesAt 0x10800 8192) 0
    (pagesAt_promised (by decide) (by decide)) identityKernel_maps (fun _ => rfl) (Int.le_refl 0)
    (by decide)
  exact ⟨_,FileStep.write zeroFile 0 _ _ _ _ xs hcall (fun _ => rfl) (Or.inl rfl),rfl⟩

theorem read_page {s : FileState} (h : s.fPos 1 = 4096) :
    ∃ s', FileStep bothNodes s (.read 1 (pagesAt 0x20000 4096) 4096) s' := by
  obtain ⟨pos',xs,hcall⟩ := @charSgdmaReadWrite_completes (bothNodes 1) (pagesAt 0x20000 4096) 4096
    (pagesAt_promised (by decide) (by decide)) identityKernel_maps (fun _ => rfl) (by decide)
    (by decide)
  rw [← h] at hcall
  exact ⟨_,FileStep.read s 1 _ _ _ _ xs hcall (fun _ => rfl) (Or.inl rfl)⟩

def writeSeekRead : List FileOp :=
  [.write 0 (pagesAt 0x10800 8192) 8192,.llseek 1 4096 0 4096,.read 1 (pagesAt 0x20000 4096) 4096]

theorem writeSeekRead_steps : ∃ s' u u',
    FileStep bothNodes zeroFile (.write 0 (pagesAt 0x10800 8192) 8192) s' ∧
    FileStep bothNodes s' (.llseek 1 4096 0 4096) u ∧ u.fPos 1 = 4096 ∧
    FileStep bothNodes u (.read 1 (pagesAt 0x20000 4096) 4096) u' := by
  obtain ⟨s',hw,_⟩ := zeroFile_write
  have hpos : Function.update s'.fPos 1 4096 1 = 4096 := Function.update_self ..
  obtain ⟨u',hr⟩ := @read_page ⟨s'.memories,Function.update s'.fPos 1 4096⟩ hpos
  exact ⟨s',_,u',hw,@FileStep.llseek bothNodes s' 1 4096 0,hpos,hr⟩

end DmaCamera
