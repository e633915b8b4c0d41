import DmaCamera.Registers
import DmaCamera.Library.Loops
set_option autoImplicit false

namespace DmaCamera
open Loops

/-! The camera program: a frame read over DMA is copied row by row into the
video that goes to the V4L2 device. -/

def frameWidth : Nat := 2048
def frameHeight : Nat := 1558
def xdmaFrameWidth : Nat := 2064
def xdmaFrameHeight : Nat := 1554

def realWidth : Nat := frameWidth
def realHeight : Nat := frameHeight

/-- What `open_vpipe` allocates for `fpga_frame_buf`. -/
def fpgaFrameBufSize : Nat := xdmaFrameHeight*xdmaFrameWidth*2

/-- What `open_vpipe` allocates for `real_video`. -/
def realVideoSize : Nat := realWidth*realHeight*2

/-- The length `send_frame` passes to `write`. -/
def sendFrameLength : Nat := realWidth*realWidth*2

def filler : Byte := 0x66

/-- The memory from `real_video` on, and the offsets accessed so far: in the
frame buffer and in `real_video`. -/
structure Frame where
  realVideo : Nat → Byte
  reads : List Nat
  writes : List Nat

def Frame.store (f : Frame) (offset : Nat) (value : Byte) : Frame :=
  { f with realVideo := Function.update f.realVideo offset value, writes := f.writes ++ [offset] }

/-- The body of the loops of `get_dma_data`; a `char` goes through a `uint16_t`. -/
def reorderPixel (buffer : Nat → Byte) (raw col : Nat) (f : Frame) : Frame :=
  if raw*xdmaFrameHeight*2+col*2+1 ≥ xdmaFrameWidth*xdmaFrameHeight*2 then
    f.store (raw*realWidth+col) filler
  else
    let source := raw*xdmaFrameWidth*2+col*2
    let pix12bit0 : BitVec 16 := (buffer (source+0)).signExtend 16
    let pix12bit1 : BitVec 16 := (buffer (source+1)).signExtend 16
    let f := { f with reads := f.reads ++ [source+0,source+1] }
    (f.store (raw*realWidth*2+col*2+0) (pix12bit0.setWidth 8)).store
      (raw*realWidth*2+col*2+1) (pix12bit1.setWidth 8)

def reorderFrame (buffer : Nat → Byte) (f : Frame) : Frame :=
  forLoop realHeight (fun raw => forLoop realWidth (reorderPixel buffer raw)) f

def dmaRead (size : Nat) (buffer : Nat → Byte) (data : List Byte) : Nat → Byte :=
  fun i => if i < size then (data.take size).getD i 0 else buffer i

def getDmaData (size : Nat) (data : List (List Byte)) (buffer : Nat → Byte) (f : Frame) :
    (Nat → Byte) × Frame :=
  let buffer := data.foldl (dmaRead size) buffer
  (buffer,reorderFrame buffer f)

def getFrame (data : List Byte) (buffer realVideo : Nat → Byte) : (Nat → Byte) × Frame :=
  getDmaData (xdmaFrameHeight*xdmaFrameWidth*2) [data] buffer ⟨realVideo,[],[]⟩

theorem guard_idle {raw col : Nat} (hr : raw < realHeight) (hc : col < realWidth) :
    ¬ raw*xdmaFrameHeight*2+col*2+1 ≥ xdmaFrameWidth*xdmaFrameHeight*2 := by
  simp only [realHeight, frameHeight, realWidth, frameWidth] at hr hc
  simp only [xdmaFrameHeight, xdmaFrameWidth]
  omega

theorem char_roundTrip (c : Byte) : (c.signExtend 16).setWidth 8 = c := by
  apply BitVec.eq_of_getLsbD_eq
  intro i hi
  have hi16 : i < 16 := by omega
  simp [BitVec.getElem_signExtend, hi, hi16]

theorem reorderPixel_eq (buffer : Nat → Byte) {raw col : Nat} (f : Frame) (hr : raw < realHeight)
    (hc : col < realWidth) : reorderPixel buffer raw col f =
      { realVideo := Function.update (Function.update f.realVideo (raw*realWidth*2+col*2)
          (buffer (raw*xdmaFrameWidth*2+col*2))) (raw*realWidth*2+col*2+1)
          (buffer (raw*xdmaFrameWidth*2+col*2+1))
        reads := f.reads ++ [raw*xdmaFrameWidth*2+col*2,raw*xdmaFrameWidth*2+col*2+1]
        writes := f.writes ++ [raw*realWidth*2+col*2,raw*realWidth*2+col*2+1] } := by
  simp [reorderPixel, guard_idle hr hc, Frame.store, char_roundTrip]

theorem reorderFrame_reads (buffer : Nat → Byte) (f : Frame) : (reorderFrame buffer f).reads =
    f.reads ++ (List.range realHeight).flatMap fun raw => (List.range realWidth).flatMap fun col =>
      [raw*xdmaFrameWidth*2+col*2,raw*xdmaFrameWidth*2+col*2+1] := by
  refine forLoop_log Frame.reads _ _ fun raw f hr => ?_
  refine forLoop_log Frame.reads _ _ fun col f hc => ?_
  simp [reorderPixel_eq buffer f hr hc]

theorem reorderFrame_writes (buffer : Nat → Byte) (f : Frame) : (reorderFrame buffer f).writes =
    f.writes ++ (List.range realHeight).flatMap fun raw => (List.range realWidth).flatMap fun col =>
      [raw*realWidth*2+col*2,raw*realWidth*2+col*2+1] := by
  refine forLoop_log Frame.writes _ _ fun raw f hr => ?_
  refine forLoop_log Frame.writes _ _ fun col f hc => ?_
  simp [reorderPixel_eq buffer f hr hc]

theorem reorderRow_video (buffer : Nat → Byte) {raw : Nat} (f : Frame) (hr : raw < realHeight)
    (n : Nat) (hn : n ≤ realWidth) (i : Nat) :
    (forLoop n (reorderPixel buffer raw) f).realVideo i =
      if raw*realWidth*2 ≤ i ∧ i < raw*realWidth*2+n*2 then
        buffer (raw*xdmaFrameWidth*2+(i-raw*realWidth*2))
      else f.realVideo i := by
  induction n generalizing i with
  | zero => simp [forLoop]
  | succ n ih =>
    rw [forLoop, reorderPixel_eq buffer _ hr (by omega)]
    simp only [Function.update_apply, ih (by omega)]
    split
    · rename_i hi
      subst i
      rw [if_pos (by omega)]
      congr 1
      omega
    · split
      · rename_i hi
        subst i
        rw [if_pos (by omega)]
        congr 1
        omega
      · have hin : (raw*realWidth*2 ≤ i ∧ i < raw*realWidth*2+n*2) ↔
            (raw*realWidth*2 ≤ i ∧ i < raw*realWidth*2+(n+1)*2) := by omega
        simp only [hin]

theorem reorderFrame_video (buffer : Nat → Byte) (f : Frame) {raw b : Nat} (hr : raw < realHeight)
    (hb : b < realWidth*2) : (reorderFrame buffer f).realVideo (raw*realWidth*2+b) =
      buffer (raw*xdmaFrameWidth*2+b) := by
  have hrows := forLoop_invariant (fun n (f : Frame) => ∀ raw < n, ∀ b < realWidth*2,
      f.realVideo (raw*realWidth*2+b) = buffer (raw*xdmaFrameWidth*2+b))
    (f := fun raw => forLoop realWidth (reorderPixel buffer raw)) (a := f) realHeight
    (by simp) ?_
  · exact hrows raw hr b hb
  · intro n f hn ih raw hraw b hb
    rw [reorderRow_video buffer f hn realWidth (Nat.le_refl _)]
    rcases Nat.lt_succ_iff_lt_or_eq.mp hraw with hlt | rfl
    · have hrow : (raw+1)*(realWidth*2) ≤ n*(realWidth*2) := Nat.mul_le_mul_right _ hlt
      rw [if_neg (by simp only [realWidth, frameWidth] at hrow hb ⊢; omega)]
      exact ih raw hlt b hb
    · rw [if_pos (by omega)]
      congr 1
      omega

theorem mem_pixels {n w stride o : Nat} :
    (o ∈ (List.range n).flatMap fun raw => (List.range w).flatMap fun col =>
      [raw*stride*2+col*2,raw*stride*2+col*2+1]) ↔
      ∃ raw < n, ∃ b < w*2, o = raw*stride*2+b := by
  simp only [List.mem_flatMap, List.mem_range, List.mem_cons, List.not_mem_nil, or_false]
  refine exists_congr fun raw => and_congr_right fun _ => ⟨?_,?_⟩
  · rintro ⟨col,hc,rfl | rfl⟩
    · exact ⟨col*2,by omega,rfl⟩
    · exact ⟨col*2+1,by omega,rfl⟩
  · rintro ⟨b,hb,rfl⟩
    exact ⟨b/2,by omega,by omega⟩

theorem mem_reads {data : List Byte} {buffer realVideo : Nat → Byte} {o : Nat} :
    o ∈ (getFrame data buffer realVideo).2.reads ↔
      ∃ raw < realHeight, ∃ b < realWidth*2, o = raw*xdmaFrameWidth*2+b := by
  simp only [getFrame, getDmaData, reorderFrame_reads, List.nil_append, mem_pixels]

theorem mem_writes {data : List Byte} {buffer realVideo : Nat → Byte} {o : Nat} :
    o ∈ (getFrame data buffer realVideo).2.writes ↔
      ∃ raw < realHeight, ∃ b < realWidth*2, o = raw*realWidth*2+b := by
  simp only [getFrame, getDmaData, reorderFrame_writes, List.nil_append, mem_pixels]

/-- What the camera program means to do with a frame: `send_frame` after `get_frame`. -/
structure FrameSafe (data : List Byte) (buffer realVideo : Nat → Byte) : Prop where
  reads : ∀ o ∈ (getFrame data buffer realVideo).2.reads, o < fpgaFrameBufSize
  writes : ∀ o ∈ (getFrame data buffer realVideo).2.writes, o < realVideoSize
  range : sendFrameLength ≤ realVideoSize
  total : sendFrameLength = realWidth*realHeight*2
  rows : ∀ raw < realHeight, ∀ b < realWidth*2,
    (getFrame data buffer realVideo).2.realVideo (raw*realWidth*2+b) =
      if raw < xdmaFrameHeight then
        (getFrame data buffer realVideo).1 (raw*xdmaFrameWidth*2+b) else filler

/-- A pixel is read within the frame buffer in the rows that were captured only;
it is written within the video everywhere, and in each captured row it is right. -/
theorem getFrame_pixel (data : List Byte) (buffer realVideo : Nat → Byte) {raw b : Nat}
    (hr : raw < realHeight) (hb : b < realWidth*2) :
    (raw*xdmaFrameWidth*2+b < fpgaFrameBufSize ↔ raw < xdmaFrameHeight) ∧
      raw*realWidth*2+b < realVideoSize ∧
      (getFrame data buffer realVideo).2.realVideo (raw*realWidth*2+b) =
        (getFrame data buffer realVideo).1 (raw*xdmaFrameWidth*2+b) := by
  refine ⟨?_,?_,reorderFrame_video _ _ hr hb⟩
  · simp only [realWidth, frameWidth] at hb
    simp only [fpgaFrameBufSize, xdmaFrameHeight, xdmaFrameWidth]
    omega
  · simp only [realHeight, frameHeight, realWidth, frameWidth] at hr hb
    simp only [realVideoSize, realHeight, frameHeight, realWidth, frameWidth]
    omega

theorem getFrame_writes (data : List Byte) (buffer realVideo : Nat → Byte) :
    ∀ o ∈ (getFrame data buffer realVideo).2.writes, o < realVideoSize := by
  intro o ho
  obtain ⟨raw,hr,b,hb,rfl⟩ := mem_writes.mp ho
  exact (getFrame_pixel data buffer realVideo hr hb).2.1

/-- The first row that was not captured is read past the end of the frame buffer. -/
theorem getFrame_reads_past (data : List Byte) (buffer realVideo : Nat → Byte) :
    ∃ o ∈ (getFrame data buffer realVideo).2.reads, fpgaFrameBufSize ≤ o :=
  ⟨xdmaFrameHeight*xdmaFrameWidth*2,mem_reads.mpr ⟨xdmaFrameHeight,by decide,0,by decide,rfl⟩,
    Nat.le_refl _⟩

/-- And `write` gets a range that is too long. -/
theorem frame_unsafe (data : List Byte) (buffer realVideo : Nat → Byte) :
    realVideoSize < sendFrameLength ∧ ¬ FrameSafe data buffer realVideo := by
  refine ⟨by decide,fun h => ?_⟩
  obtain ⟨o,ho,hpast⟩ := getFrame_reads_past data buffer realVideo
  exact absurd (h.reads o ho) (Nat.not_lt.mpr hpast)

theorem frame_dark_unsafe : ¬ FrameSafe [] (fun _ => 0) (fun _ => 0) := by
  intro h
  obtain ⟨o,ho,hpast⟩ := getFrame_reads_past [] (fun _ => 0) (fun _ => 0)
  exact absurd (h.reads o ho) (Nat.not_lt.mpr hpast)

end DmaCamera
