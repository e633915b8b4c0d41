import DmaCamera.Stream
set_option autoImplicit false

namespace DmaCamera

/-- A counter at the first and at the last of its two reads; it does not run down. -/
structure CounterRead where
  first : U64
  last : U64
  mono : first.toNat ≤ last.toNat

def CounterRead.hi (c : CounterRead) : U32 := (c.first >>> 32).setWidth 32
def CounterRead.lo (c : CounterRead) : U32 := c.last.setWidth 32

structure PerfCounters where
  completedDescCount : U32
  cyc : CounterRead
  dat : CounterRead
  pnd : CounterRead

def PerfCounters.regs (c : PerfCounters) : PerfRegs :=
  ⟨c.completedDescCount,c.cyc.hi,c.cyc.lo,c.dat.hi,c.dat.lo,c.pnd.hi,c.pnd.lo⟩

def CounterRead.Between (c : CounterRead) (value : U64) : Prop :=
  c.first.toNat ≤ value.toNat ∧ value.toNat ≤ c.last.toNat

/-- Only 60 bits are in use, and the low word is not behind that of the first read. -/
def CounterRead.intact (c : CounterRead) : Prop :=
  c.first.toNat < 2^60 ∧ c.first.toNat % 2^32 ≤ c.last.toNat % 2^32

theorem buildU64_toNat (hi lo : U32) :
    (buildU64 hi lo).toNat = hi.toNat % 2^28*2^32+lo.toNat := by
  have hmask : (0xFFFFFFF : U64).toNat = 2^28-1 := by decide
  have hhi : ((hi.setWidth 64 &&& 0xFFFFFFF) <<< 32).toNat = hi.toNat % 2^28*2^32 := by
    have hlt : hi.toNat < 2^64 := Nat.lt_of_lt_of_le hi.isLt (by decide)
    rw [BitVec.toNat_shiftLeft, BitVec.toNat_and, hmask, BitVec.toNat_setWidth,
      Nat.mod_eq_of_lt hlt, Nat.and_two_pow_sub_one_eq_mod, Nat.shiftLeft_eq]
    exact Nat.mod_eq_of_lt (by omega)
  have hlo : (lo.setWidth 64).toNat = lo.toNat := by
    rw [BitVec.toNat_setWidth]
    exact Nat.mod_eq_of_lt (Nat.lt_of_lt_of_le lo.isLt (by decide))
  rw [buildU64, BitVec.toNat_or, hhi, hlo, Nat.mul_comm, ← Nat.two_pow_add_eq_or_of_lt lo.isLt]

theorem CounterRead.build_toNat (c : CounterRead) :
    (buildU64 c.hi c.lo).toNat = c.first.toNat/2^32 % 2^28*2^32+c.last.toNat % 2^32 := by
  have hfirst := c.first.isLt
  have hhi : c.hi.toNat = c.first.toNat/2^32 := by
    rw [CounterRead.hi, BitVec.toNat_setWidth, BitVec.toNat_ushiftRight, Nat.shiftRight_eq_div_pow]
    exact Nat.mod_eq_of_lt (by omega)
  rw [buildU64_toNat, hhi, CounterRead.lo, BitVec.toNat_setWidth]

/-- A counter is reported right unless it is cut off, or carried out of its low word. -/
theorem CounterRead.between_iff (c : CounterRead) :
    c.Between (buildU64 c.hi c.lo) ↔ c.intact := by
  have hmono := c.mono
  rw [Between, intact, c.build_toNat]
  omega

/-- So it is with all that `get_perf_stats` reports. -/
theorem getPerfStats_between (c : PerfCounters) (perf : XdmaPerformanceIoctl) :
    (c.cyc.Between (getPerfStats c.regs perf).clockCycleCount ↔ c.cyc.intact) ∧
      (c.dat.Between (getPerfStats c.regs perf).dataCycleCount ↔ c.dat.intact) ∧
      (c.pnd.Between (getPerfStats c.regs perf).pendingCount ↔ c.pnd.intact) :=
  ⟨c.cyc.between_iff,c.dat.between_iff,c.pnd.between_iff⟩

def carriedAndCut : PerfCounters where
  completedDescCount := 0
  cyc := ⟨0xFFFFFFFF,0x100000000,by decide⟩
  dat := ⟨0x1000000000000000,0x1000000000000000,by decide⟩
  pnd := ⟨0,0,by decide⟩

theorem carriedAndCut_lost :
    (getPerfStats carriedAndCut.regs ⟨perfVersion,0,0,0,0,0,0⟩).clockCycleCount = 0 ∧
      ¬ carriedAndCut.cyc.Between 0 ∧
      (getPerfStats carriedAndCut.regs ⟨perfVersion,0,0,0,0,0,0⟩).dataCycleCount = 0 ∧
      ¬ carriedAndCut.dat.Between 0 := by
  unfold CounterRead.Between
  decide

end DmaCamera
