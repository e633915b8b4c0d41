import Mathlib.Tactic.IntervalCases
import DmaCamera.Registers
import DmaCamera.Library.Loops
set_option autoImplicit false

namespace DmaCamera
open Loops

structure XdmaDesc where
  control : U32
  bytes : U32
  srcAddrLo : U32
  srcAddrHi : U32
  dstAddrLo : U32
  dstAddrHi : U32
  nextLo : U32
  nextHi : U32
  deriving DecidableEq, Repr, Inhabited

def xdmaDescSize : Nat := 32

def XdmaDesc.src (desc : XdmaDesc) : U64 := joinAddr desc.srcAddrHi desc.srcAddrLo
def XdmaDesc.dst (desc : XdmaDesc) : U64 := joinAddr desc.dstAddrHi desc.dstAddrLo
def XdmaDesc.next (desc : XdmaDesc) : U64 := joinAddr desc.nextHi desc.nextLo

def XdmaDesc.extraAdjacent (desc : XdmaDesc) : Nat := ((desc.control >>> 8) &&& 0x3f).toNat

def XdmaDesc.magic (desc : XdmaDesc) : U32 := desc.control >>> 16

def clampExtraAdj (adjacent : Nat) : Nat := min (adjacent-1) maxExtraAdj

/-- One iteration of the chaining loop of `xdma_desc_alloc`: the running bus
address, the count `adj` of descriptors that follow, and the array. -/
def xdmaDescAllocStep (i : Nat) : U64 × Nat × (Nat → XdmaDesc) → U64 × Nat × (Nat → XdmaDesc)
  | (descBus, adj, descVirt) =>
    let descBus := descBus + BitVec.ofNat 64 xdmaDescSize
    let extraAdj := if adj > 0 then clampExtraAdj adj else 0
    let desc := { descVirt i with
      nextLo := pciDmaL descBus
      nextHi := pciDmaH descBus
      bytes := 0
      control := descMagic ||| (BitVec.ofNat 32 extraAdj <<< 8) }
    (descBus, adj-1, Function.update descVirt i desc)

/-- `alloc` is what `pci_alloc_consistent` returned: the bus address of the
array and the contents it happens to have. -/
def xdmaDescAlloc (number : Nat) (alloc : Option (U64 × (Nat → XdmaDesc))) :
    Except Fault (Option (U64 × (Nat → XdmaDesc))) :=
  if number < 1 then .error (.bug .xdmaDescAlloc) else
    match alloc with
    | none => .ok none
    | some (descBus, memory) =>
      let chained := (forLoop (number-1) xdmaDescAllocStep (descBus, number-1, memory)).2.2
      let last := { chained (number-1) with
        nextLo := 0
        nextHi := 0
        bytes := 0
        control := descMagic }
      .ok (some (descBus, Function.update chained (number-1) last))

def xdmaDescLink (first : XdmaDesc) (second : Option U64) : XdmaDesc :=
  let control := first.control &&& 0x0000f0ff
  match second with
  | some secondBus =>
    { first with
      nextLo := pciDmaL secondBus
      nextHi := pciDmaH secondBus
      control := control ||| descMagic }
  | none => { first with nextLo := 0, nextHi := 0, control := control ||| descMagic }

/-- Page room left behind the next descriptor, in descriptors less one: an
unsigned computation that wraps when less than one descriptor fits. -/
def maxAdj4k (nextLo : U32) : Nat := ((0x1000 - (nextLo &&& 0xFFF).toNat) / 32 + 2^32 - 1) % 2^32

def xdmaDescAdjacent (desc : XdmaDesc) (nextAdjacent : Nat) : XdmaDesc :=
  let control := desc.control &&& 0x0000f0ff
  let extraAdj :=
    if nextAdjacent > 0 then min (clampExtraAdj nextAdjacent) (maxAdj4k desc.nextLo) else 0
  { desc with control := control ||| ((0xAD4B0000 : U32) ||| (BitVec.ofNat 32 extraAdj <<< 8)) }

/-- The `BUG_ON` guards against fields beyond the low byte; every caller passes
a constant inside it. -/
def xdmaDescControl (first : XdmaDesc) (controlField : U32) : XdmaDesc :=
  { first with control := (first.control &&& ~~~lsByteMask) ||| controlField }

def xdmaDescSet (desc : XdmaDesc) (rcBusAddr epAddr : U64) (len : Nat) (dirToDev : Bool) :
    XdmaDesc :=
  let desc := { desc with bytes := BitVec.ofNat 32 len }
  if dirToDev then
    { desc with
      srcAddrLo := pciDmaL rcBusAddr
      srcAddrHi := pciDmaH rcBusAddr
      dstAddrLo := pciDmaL epAddr
      dstAddrHi := pciDmaH epAddr }
  else
    { desc with
      srcAddrLo := pciDmaL epAddr
      srcAddrHi := pciDmaH epAddr
      dstAddrLo := pciDmaL rcBusAddr
      dstAddrHi := pciDmaH rcBusAddr }

@[simp] theorem xdmaDescSet_control (desc : XdmaDesc) (rc ep : U64) (len : Nat) (dir : Bool) :
    (xdmaDescSet desc rc ep len dir).control = desc.control := by
  cases dir <;> rfl

@[simp] theorem xdmaDescSet_next (desc : XdmaDesc) (rc ep : U64) (len : Nat) (dir : Bool) :
    (xdmaDescSet desc rc ep len dir).next = desc.next := by
  cases dir <;> rfl

@[simp] theorem xdmaDescSet_bytes (desc : XdmaDesc) (rc ep : U64) (len : Nat) (dir : Bool) :
    (xdmaDescSet desc rc ep len dir).bytes = BitVec.ofNat 32 len := by
  cases dir <;> rfl

@[simp] theorem xdmaDescSet_src (desc : XdmaDesc) (rc ep : U64) (len : Nat) (dir : Bool) :
    (xdmaDescSet desc rc ep len dir).src = if dir then rc else ep := by
  cases dir <;> simp [xdmaDescSet, XdmaDesc.src]

@[simp] theorem xdmaDescSet_dst (desc : XdmaDesc) (rc ep : U64) (len : Nat) (dir : Bool) :
    (xdmaDescSet desc rc ep len dir).dst = if dir then ep else rc := by
  cases dir <;> simp [xdmaDescSet, XdmaDesc.dst]

@[simp] theorem xdmaDescControl_next (desc : XdmaDesc) (field : U32) :
    (xdmaDescControl desc field).next = desc.next := rfl

@[simp] theorem xdmaDescLink_none_next (desc : XdmaDesc) : (xdmaDescLink desc none).next = 0 := by
  simp [xdmaDescLink, XdmaDesc.next, joinAddr]

@[simp] theorem xdmaDescLink_some_next (desc : XdmaDesc) (bus : U64) :
    (xdmaDescLink desc (some bus)).next = bus := by
  simp [xdmaDescLink, XdmaDesc.next]

@[simp] theorem xdmaDescAdjacent_next (desc : XdmaDesc) (n : Nat) :
    (xdmaDescAdjacent desc n).next = desc.next := rfl

structure Chained (descVirt : Nat → XdmaDesc) (descBus : U64) (i : Nat) : Prop where
  next : (descVirt i).next = descBus + BitVec.ofNat 64 (32*(i+1))
  clear : (descVirt i).control &&& 0x0000f0ff = 0

theorem descMagic_extra_clear {extraAdj : Nat} (h : extraAdj ≤ maxExtraAdj) :
    (descMagic ||| (BitVec.ofNat 32 extraAdj <<< 8)) &&& 0x0000f0ff = 0 := by
  unfold maxExtraAdj at h
  interval_cases extraAdj <;> decide

theorem clampExtraAdj_le (adjacent : Nat) : clampExtraAdj adjacent ≤ maxExtraAdj :=
  Nat.min_le_right _ _

theorem xdmaDescAllocStep_chained (i : Nat) (bus : U64) (adj : Nat) (d : Nat → XdmaDesc) (k : Nat)
    (hk : k ≠ i) : (xdmaDescAllocStep i (bus,adj,d)).2.2 k = d k := by
  simp [xdmaDescAllocStep, Function.update_of_ne hk]

/-- The chaining loop links every descriptor it has passed to its successor. -/
theorem xdmaDescAlloc_loop (bus : U64) (adj n : Nat) (memory : Nat → XdmaDesc) :
    let r := forLoop n xdmaDescAllocStep (bus,adj,memory)
    r.1 = bus + BitVec.ofNat 64 (32*n) ∧ ∀ k, k < n → Chained r.2.2 bus k := by
  refine forLoop_invariant (fun n (r : U64 × Nat × (Nat → XdmaDesc)) =>
    r.1 = bus + BitVec.ofNat 64 (32*n) ∧ ∀ k, k < n → Chained r.2.2 bus k) n ?_ ?_
  · simp
  · rintro i ⟨b,a,d⟩ _ ⟨hb,hd⟩
    have hbus : (xdmaDescAllocStep i (b,a,d)).1 = bus + BitVec.ofNat 64 (32*(i+1)) := by
      simp only [xdmaDescAllocStep, xdmaDescSize] at hb ⊢
      rw [hb, BitVec.add_assoc, ← BitVec.ofNat_add, Nat.mul_succ]
    refine ⟨hbus, fun k hk => ?_⟩
    by_cases hki : k = i
    · subst k
      refine ⟨?_, ?_⟩
      · rw [← hbus]
        simp [xdmaDescAllocStep, XdmaDesc.next]
      · simp only [xdmaDescAllocStep, Function.update_self]
        split
        · exact descMagic_extra_clear (clampExtraAdj_le a)
        · exact descMagic_extra_clear (Nat.zero_le _)
    · have h := hd k (by omega)
      have he := xdmaDescAllocStep_chained i b a d k hki
      exact ⟨by rw [he]; exact h.next, by rw [he]; exact h.clear⟩

/-- What the allocator hands out: every descriptor but the last chained to the
next, the last one terminated. -/
structure Allocated (descVirt : Nat → XdmaDesc) (descBus : U64) (number : Nat) : Prop where
  chained : ∀ i, i+1 < number → Chained descVirt descBus i
  lastNext : (descVirt (number-1)).next = 0
  lastClear : (descVirt (number-1)).control &&& 0x0000f0ff = 0

theorem xdmaDescAlloc_spec {number : Nat} (h : 1 ≤ number) (bus : U64) (memory : Nat → XdmaDesc) :
    ∃ d, xdmaDescAlloc number (some (bus,memory)) = .ok (some (bus,d)) ∧
      Allocated d bus number := by
  have hn : ¬ number < 1 := by omega
  refine ⟨_, by rw [xdmaDescAlloc, if_neg hn], ?_⟩
  have hl := (xdmaDescAlloc_loop bus (number-1) (number-1) memory).2
  refine ⟨fun i hi => ?_, ?_, ?_⟩
  · have hc := hl i (by omega)
    have hne : i ≠ number-1 := by omega
    exact ⟨by simpa [Function.update_of_ne hne] using hc.next,
      by simpa [Function.update_of_ne hne] using hc.clear⟩
  · simp [XdmaDesc.next, joinAddr]
  · simp only [Function.update_self]
    decide

end DmaCamera
