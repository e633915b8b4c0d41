import DmaCamera.Receive
import Mathlib.Order.Bounds.Basic
set_option autoImplicit false

namespace DmaCamera
open Circular Loops

section processed

variable {r : RxRing} {n : Noticing} {k : Nat}

theorem RxRing.Processed.more_iff (h : r.Processed n k) (hoff : r.rxOverrun = false) :
    n.more = true ↔ SlotRun r.result r.rxHead r.rxTail (k+1) := by
  constructor
  · exact fun hm => (h.next hm).slotRun
  · intro hrun
    obtain ⟨hstatus,hapart⟩ := hrun k (Nat.lt_succ_self k)
    have hmet : (decide (0 < k) && (r.rxTail+k) % rxBufPages == r.rxHead) = false := by
      rw [Bool.and_eq_false_imp]
      exact fun hk => beq_eq_false_iff_ne.mpr (hapart (of_decide_eq_true hk))
    simp only [Noticing.more, h.result, h.tail, h.overrun, hoff, hmet, Bool.or_self, Bool.not_false,
      Bool.and_true, bne_iff_ne]
    exact hstatus

end processed

def Engine.noticed (e : Engine) (k : Nat) : Engine :=
  { e with
    rxTail := (e.rxTail+k) % rxBufPages
    rxOverrun := decide (0 < k) && (e.rxTail+k) % rxBufPages == e.rxHead }

def Engine.packetEnds (e : Engine) (result : Nat → XdmaResult) (k : Nat) : Nat :=
  (List.range k).countP fun j => (result ((e.rxTail+j) % rxBufPages)).eop

section ring

variable {e : Engine} {r : RxRing} {n : Noticing} {k : Nat}

theorem RxRing.Processed.noticed (h : r.Processed n k) (hr : e.Shows r) (hoff : r.rxOverrun = false) :
    e.atRing n.ring = e.noticed k := by
  simp only [Engine.atRing, Engine.noticed, h.head, h.result, h.tail, h.overrun, hoff, hr.tail,
    ← hr.head, ← hr.result, Bool.false_or]

theorem RxRing.Processed.packetEnds (h : r.Processed n k) (hr : e.Shows r) :
    n.eopCount = e.packetEnds r.result k := by
  rw [Noticing.eopCount, h.slots, h.result, span, List.countP_map, Engine.packetEnds, hr.tail]
  rfl

theorem ringProcessLoop_longest (hr : e.Shows r) (hoff : r.rxOverrun = false)
    (hk : IsGreatest {m | SlotRun r.result r.rxHead r.rxTail m} k) (fuel : Nat) :
    ringProcessLoop r.result fuel e 0 =
      if k ≤ fuel then some (e.noticed k,e.packetEnds r.result k) else none := by
  obtain ⟨m,hm,h,hend⟩ := whileLoop_rounds (fun k n => r.Processed n k) fuel r.processed_start
    fun k n h hmore => h.next hmore
  rw [Nat.zero_add] at h
  have hle : m ≤ k := hk.2 h.slotRun
  have hmore := h.more_iff hoff
  have hloop := ringProcessLoop_atRing e fuel ⟨r,[]⟩
  rw [hr.atRing] at hloop
  refine hloop.trans ?_
  by_cases hfuel : k ≤ fuel
  · -- the loop has ended by itself, or has done as many rounds as the run allows
    have hmk : m = k := by
      rcases hend with hend | hfull
      · by_contra hne
        rw [hmore.mpr (hk.1.mono (by omega))] at hend
        cases hend
      · omega
    subst hmk
    have hstop : (whileLoop Noticing.more Noticing.next fuel ⟨r,[]⟩).more = false := by
      rw [← Bool.not_eq_true, hmore]
      exact fun hlonger => Nat.not_succ_le_self m (hk.2 hlonger)
    rw [hstop, if_pos hfuel, if_neg Bool.false_ne_true, h.noticed hr hoff, h.packetEnds hr]
  · rw [hmore.mpr (hk.1.mono (by omega)), if_neg hfuel, if_pos rfl]

theorem slotRun_greatest (r : RxRing) (hoff : r.rxOverrun = false) :
    ∃ k, IsGreatest {m | SlotRun r.result r.rxHead r.rxTail m} k := by
  obtain ⟨k,h,hend⟩ := r.process_spec
  refine ⟨k,h.slotRun,fun m hm => ?_⟩
  by_contra hlt
  rw [(h.more_iff hoff).mpr (SlotRun.mono hm (by omega))] at hend
  cases hend

end ring

structure RunNoticed (e : Engine) (result : Nat → XdmaResult) (k : Nat) (e' : Engine)
    (eopCount : Nat) : Prop where
  longest : IsGreatest {m | SlotRun result e.rxHead e.rxTail m} k
  tail : e'.rxTail = (e.rxTail+k) % rxBufPages
  overrun : e'.rxOverrun = true ↔ 0 < k ∧ (e.rxTail+k) % rxBufPages = e.rxHead
  eop : eopCount = e.packetEnds result k
  same : e' = { e with rxTail := e'.rxTail, rxOverrun := e'.rxOverrun }

/-- The tail moves over the longest run of slots with a status, in one round of the loop for each
of them, and over nothing else. -/
theorem engineRingProcess_longest {e : Engine} {result : Nat → XdmaResult}
    (hbuf : e.rxResultBufferVirt = some result) (hhead : e.rxHead < rxBufPages)
    (htail : e.rxTail < rxBufPages) (hoff : e.rxOverrun = false) :
    ∃ k ≤ rxBufPages, ∃ e' eopCount, RunNoticed e result k e' eopCount ∧
      engineRingProcess e = .ok (e',eopCount) ∧
      ∀ fuel, ringProcessLoop result fuel e 0 = if k ≤ fuel then some (e',eopCount) else none := by
  obtain ⟨r,hr⟩ : ∃ r : RxRing, r = ⟨e.rxHead,e.rxTail,false,result,hhead,htail⟩ := ⟨_,rfl⟩
  have hresult : r.result = result := by rw [hr]
  have hshows : e.Shows r := by
    rw [hr]
    exact ⟨rfl,rfl,hoff,hbuf⟩
  have hoff' : r.rxOverrun = false := by rw [hr]
  obtain ⟨k,hk⟩ := slotRun_greatest r hoff'
  have hloop := ringProcessLoop_longest hshows hoff' hk
  rw [hresult] at hk hloop
  rw [← hshows.head, ← hshows.tail] at hk
  have hround : k ≤ rxBufPages := hk.1.le hhead
  refine ⟨k,hround,e.noticed k,e.packetEnds result k,⟨hk,rfl,?_,rfl,rfl⟩,?_,hloop⟩
  · simp [Engine.noticed]
  · simp only [engineRingProcess, hbuf, hloop, if_pos hround]

theorem engineRingProcess_longest_wraps :
    ∃ e' eopCount, RunNoticed ((engineCreate ⟨false,false⟩ 0 true false).atRing
        ⟨1,255,false,fun i => ⟨if i = 0 then 1 else 2,4096⟩,by decide,by decide⟩)
      (fun i => ⟨if i = 0 then 1 else 2,4096⟩) 2 e' eopCount ∧
      e'.rxTail = 1 ∧ e'.rxOverrun = true ∧ eopCount = 1 := by
  obtain ⟨k,hk,e',eopCount,h,hok,hloop⟩ := @engineRingProcess_longest
    ((engineCreate ⟨false,false⟩ 0 true false).atRing
      ⟨1,255,false,fun i => ⟨if i = 0 then 1 else 2,4096⟩,by decide,by decide⟩)
    (fun i => ⟨if i = 0 then 1 else 2,4096⟩) rfl (by decide) (by decide) rfl
  have hrounds : k ≤ 2 := by
    by_contra hlt
    have h₂ := hloop 2
    rw [if_neg hlt] at h₂
    exact absurd h₂ (by decide)
  have hmore : ¬ k ≤ 1 := by
    intro hle
    have h₁ := hloop 1
    rw [if_pos hle] at h₁
    have hends := congrArg Option.isSome h₁
    rw [Option.isSome_some] at hends
    exact absurd hends (by decide)
  obtain rfl : k = 2 := by omega
  exact ⟨e',eopCount,h,h.tail,h.overrun.mpr (by decide),h.eop⟩

end DmaCamera
