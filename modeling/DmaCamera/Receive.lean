import DmaCamera.Cyclic
import DmaCamera.Library.Circular
import DmaCamera.Library.Countdown
import DmaCamera.Library.Loops
set_option autoImplicit false

namespace DmaCamera
open Circular Countdown Loops

/-! The receive ring of a streaming engine: the service handler moves the tail
over the results it notices, `complete_cyclic` takes results from the head on. -/

theorem rxBufPages_pos : 0 < rxBufPages := by decide

theorem one_lt_rxBufPages : 1 < rxBufPages := by decide

structure RxRing where
  rxHead : Nat
  rxTail : Nat
  rxOverrun : Bool
  result : Nat → XdmaResult
  head_lt : rxHead < rxBufPages
  tail_lt : rxTail < rxBufPages

def Engine.atRing (e : Engine) (r : RxRing) : Engine :=
  { e with
    rxTail := r.rxTail
    rxHead := r.rxHead
    rxOverrun := r.rxOverrun
    rxResultBufferVirt := some r.result }

structure Engine.Shows (e : Engine) (r : RxRing) : Prop where
  head : e.rxHead = r.rxHead
  tail : e.rxTail = r.rxTail
  overrun : e.rxOverrun = r.rxOverrun
  result : e.rxResultBufferVirt = some r.result

theorem Engine.Shows.atRing {e : Engine} {r : RxRing} (h : e.Shows r) : e.atRing r = e := by
  simp [Engine.atRing, ← h.head, ← h.tail, ← h.overrun, ← h.result]

def XdmaResult.cleared : XdmaResult := ⟨0,0⟩

def XdmaResult.eop (r : XdmaResult) : Bool := r.status.has rxStatusEop

def XdmaResult.malformed (r : XdmaResult) : Bool :=
  r.status >>> 16 != c2hWb || r.length.toNat > rxBufBlock || r.length == 0

structure Noticing where
  ring : RxRing
  slots : List Nat

def Noticing.more (n : Noticing) : Bool :=
  (n.ring.result n.ring.rxTail).status != 0 && !n.ring.rxOverrun

def Noticing.next (n : Noticing) : Noticing where
  ring := { n.ring with
    rxTail := (n.ring.rxTail+1) % rxBufPages
    rxOverrun := n.ring.rxOverrun || (n.ring.rxTail+1) % rxBufPages == n.ring.rxHead
    tail_lt := Nat.mod_lt _ (by decide) }
  slots := n.slots ++ [n.ring.rxTail]

def Noticing.eopCount (n : Noticing) : Nat := n.slots.countP fun i => (n.ring.result i).eop

def RxRing.process (r : RxRing) : Noticing :=
  whileLoop Noticing.more Noticing.next rxBufPages ⟨r,[]⟩

structure Completion where
  ring : RxRing
  pktLength : Nat
  fault : Bool
  eop : Bool
  numCredit : Nat
  /-- Whether the `WARN_ON` about an empty result fired. -/
  warned : Bool

def Completion.more (c : Completion) : Bool :=
  (c.ring.rxHead != c.ring.rxTail || c.ring.rxOverrun) && !(c.fault || c.eop)

def RxRing.take (r : RxRing) : RxRing :=
  { r with
    result := Function.update r.result r.rxHead .cleared
    rxHead := (r.rxHead+1) % rxBufPages
    head_lt := Nat.mod_lt _ (by decide) }

def Completion.next (c : Completion) : Completion :=
  let r := c.ring.result c.ring.rxHead
  let c := { c with ring := c.ring.take, warned := c.warned || r.status == 0 }
  if r.malformed then { c with fault := true }
  else { c with
    pktLength := c.pktLength+r.length.toNat
    numCredit := c.numCredit+1
    eop := if r.eop then true else c.eop }

/-- A whole round leaves cleared results only, so that one more ends in a fault. -/
def RxRing.complete (r : RxRing) : Completion :=
  whileLoop Completion.more Completion.next (rxBufPages+1) ⟨r,0,false,false,0,false⟩

def Completion.taken (c : Completion) : Nat := c.numCredit+c.fault.toNat

theorem Noticing.eopCount_next (n : Noticing) : n.next.eopCount =
    if (n.ring.result n.ring.rxTail).status.has rxStatusEop then n.eopCount+1 else n.eopCount := by
  simp only [eopCount, next, List.countP_append, List.countP_singleton, XdmaResult.eop]
  split <;> rfl

theorem ringProcessLoop_atRing (e : Engine) (fuel : Nat) (n : Noticing) :
    ringProcessLoop n.ring.result fuel (e.atRing n.ring) n.eopCount =
      if (whileLoop Noticing.more Noticing.next fuel n).more then none
      else some (e.atRing (whileLoop Noticing.more Noticing.next fuel n).ring,
        (whileLoop Noticing.more Noticing.next fuel n).eopCount) := by
  induction fuel generalizing n with
  | zero => simp [ringProcessLoop, whileLoop, Engine.receives, Noticing.more, Engine.atRing]
  | succ fuel ih =>
    have hm : (e.atRing n.ring).receives n.ring.result = n.more := rfl
    have hnext : (e.atRing n.ring).receive = e.atRing n.next.ring := rfl
    have hresult : n.next.ring.result = n.ring.result := rfl
    cases h : n.more with
    | true =>
      have hih := ih n.next
      rw [hresult, Noticing.eopCount_next] at hih
      simp only [ringProcessLoop, whileLoop, hm, h, if_true, hnext]
      exact hih
    | false => simp [ringProcessLoop, whileLoop, hm, h]

structure RxRing.Processed (r : RxRing) (n : Noticing) (k : Nat) : Prop where
  head : n.ring.rxHead = r.rxHead
  result : n.ring.result = r.result
  tail : n.ring.rxTail = (r.rxTail+k) % rxBufPages
  slots : n.slots = span rxBufPages r.rxTail k
  status : ∀ j < k, (r.result ((r.rxTail+j) % rxBufPages)).status ≠ 0
  apart : ∀ j < k, 0 < j → (r.rxTail+j) % rxBufPages ≠ r.rxHead
  off : 0 < k → r.rxOverrun = false
  overrun : n.ring.rxOverrun =
    (r.rxOverrun || (decide (0 < k) && (r.rxTail+k) % rxBufPages == r.rxHead))

theorem RxRing.Processed.next {r : RxRing} {n : Noticing} {k : Nat} (h : r.Processed n k)
    (hm : n.more = true) : r.Processed n.next (k+1) := by
  simp only [Noticing.more, Bool.and_eq_true, bne_iff_ne, Bool.not_eq_true', h.result, h.tail,
    h.overrun, Bool.or_eq_false_iff] at hm
  obtain ⟨hstatus,hoff,hmet⟩ := hm
  have hapart : 0 < k → (r.rxTail+k) % rxBufPages ≠ r.rxHead := by
    intro hk
    simpa [hk] using hmet
  refine ⟨h.head,h.result,?_,?_,?_,?_,fun _ => hoff,?_⟩
  · simp [Noticing.next, h.tail, Nat.add_assoc]
  · simp [Noticing.next, h.slots, h.tail, span_succ]
  · intro j hj
    rcases Nat.lt_succ_iff_lt_or_eq.mp hj with hlt | rfl
    · exact h.status j hlt
    · exact hstatus
  · intro j hj hpos
    rcases Nat.lt_succ_iff_lt_or_eq.mp hj with hlt | rfl
    · exact h.apart j hlt hpos
    · exact hapart hpos
  · have hold : n.ring.rxOverrun = false := by
      rw [h.overrun, hoff]
      simpa using hmet
    simp [Noticing.next, h.tail, h.head, hold, hoff, Nat.add_assoc]

theorem RxRing.processed_start (r : RxRing) : r.Processed ⟨r,[]⟩ 0 :=
  ⟨rfl,rfl,(Nat.mod_eq_of_lt r.tail_lt).symm,rfl,by simp,by simp,by simp,by simp⟩

/-- The `k` slots from the tail on have a status, and the tail that moves over them does not
meet the head on the way. -/
def SlotRun (result : Nat → XdmaResult) (head tail k : Nat) : Prop :=
  ∀ j < k, (result ((tail+j) % rxBufPages)).status ≠ 0 ∧ (0 < j → (tail+j) % rxBufPages ≠ head)

theorem SlotRun.mono {result : Nat → XdmaResult} {head tail m k : Nat}
    (h : SlotRun result head tail k) (hm : m ≤ k) : SlotRun result head tail m :=
  fun j hj => h j (Nat.lt_of_lt_of_le hj hm)

theorem SlotRun.le {result : Nat → XdmaResult} {head tail k : Nat} (hhead : head < rxBufPages)
    (h : SlotRun result head tail k) : k ≤ rxBufPages := by
  by_contra hlt
  obtain ⟨j,hj,hmet⟩ := mem_span.mp (mem_span_round (a := tail+1) hhead)
  refine (h (j+1) (by omega)).2 (Nat.succ_pos j) ?_
  rw [← hmet]
  congr 1
  omega

theorem RxRing.Processed.slotRun {r : RxRing} {n : Noticing} {k : Nat} (h : r.Processed n k) :
    SlotRun r.result r.rxHead r.rxTail k :=
  fun j hj => ⟨h.status j hj,h.apart j hj⟩

theorem RxRing.process_spec (r : RxRing) :
    ∃ k, r.Processed r.process k ∧ r.process.more = false := by
  obtain ⟨k,hk,h,hend⟩ := whileLoop_rounds (fun k n => r.Processed n k) rxBufPages r.processed_start
    fun k n h hm => h.next hm
  rw [Nat.zero_add] at h
  refine ⟨k,h,?_⟩
  rcases hend with hend | hfull
  · exact hend
  · -- the tail has been all the way round, and so at the head
    by_contra hmore
    have hnext := h.next (Bool.eq_true_of_not_eq_false hmore)
    have hround := hnext.slotRun.le r.head_lt
    omega

/-- The tail, from position `T` on, stops a round behind the head at the latest, and
that raises the flag. -/
theorem RxRing.process_round {r : RxRing} {H T : Nat} (hhead : r.rxHead = H % rxBufPages)
    (htail : r.rxTail = T % rxBufPages) (hHT : H ≤ T) (hTH : T ≤ H+rxBufPages)
    (hoff : r.rxOverrun = false → T < H+rxBufPages) :
    ∃ k, r.Processed r.process k ∧ r.process.more = false ∧ T+k ≤ H+rxBufPages ∧
      r.process.ring.rxTail = (T+k) % rxBufPages ∧ r.process.slots = span rxBufPages T k ∧
      (r.process.ring.rxOverrun = true ↔ r.rxOverrun = true ∨ 0 < k ∧ T+k = H+rxBufPages) := by
  obtain ⟨k,hk,hmore⟩ := r.process_spec
  have hpos : ∀ j, (r.rxTail+j) % rxBufPages = (T+j) % rxBufPages := by simp [htail]
  have hround : T+k ≤ H+rxBufPages := by
    by_contra hlt
    have hT := hoff (hk.off (by omega))
    refine hk.apart (H+rxBufPages-T) (by omega) (by omega) ?_
    rw [hpos, hhead, Nat.add_sub_cancel' (Nat.le_of_lt hT), Nat.add_mod_right]
  refine ⟨k,hk,hmore,hround,by rw [hk.tail, hpos],?_,?_⟩
  · rw [hk.slots, span_congr (b := T) (by simp [htail])]
  · simp only [hk.overrun, hpos, hhead, Bool.or_eq_true, Bool.and_eq_true, decide_eq_true_eq,
      beq_iff_eq]
    refine or_congr_right (and_congr_right fun hk₀ => ⟨fun hmet => ?_,fun hfull => ?_⟩)
    · by_contra hne
      exact slot_ne (a := H) (N := rxBufPages) (by omega) (by omega) hmet.symm
    · rw [hfull, Nat.add_mod_right]

/-- The `j`-th result from the head on; after a whole round all are cleared. -/
def RxRing.ahead (r : RxRing) (j : Nat) : XdmaResult :=
  if j < rxBufPages then r.result ((r.rxHead+j) % rxBufPages) else .cleared

def RxRing.front (r : RxRing) (n : Nat) : List XdmaResult := (List.range n).map r.ahead

def resultBytes (rs : List XdmaResult) : Nat := total (fun r => r.length.toNat) rs

structure RxRing.Completed (r : RxRing) (c : Completion) : Prop where
  tail : c.ring.rxTail = r.rxTail
  overrun : c.ring.rxOverrun = r.rxOverrun
  head : c.ring.rxHead = (r.rxHead+c.taken) % rxBufPages
  result : ∀ i, c.ring.result i =
    if i ∈ span rxBufPages r.rxHead c.taken then .cleared else r.result i
  length : c.pktLength = resultBytes (r.front c.numCredit)
  valid : ∀ j < c.numCredit, (r.ahead j).malformed = false
  plain : ∀ j, j+1 < c.taken → (r.ahead j).eop = false
  fault : c.fault = true → (r.ahead c.numCredit).malformed = true
  eop : c.eop = true ↔ ∃ j, c.numCredit = j+1 ∧ (r.ahead j).eop = true
  warned : c.warned = true ↔ ∃ j < c.taken, (r.ahead j).status = 0
  within : r.rxOverrun = false → ∀ j < c.taken, (r.rxHead+j) % rxBufPages ≠ r.rxTail

theorem cleared_malformed : XdmaResult.cleared.malformed = true := by decide

theorem RxRing.Completed.numCredit_le {r : RxRing} {c : Completion} (h : r.Completed c) :
    c.numCredit ≤ rxBufPages := by
  by_contra hlt
  have hv := h.valid rxBufPages (by omega)
  simp [ahead, cleared_malformed] at hv

theorem RxRing.Completed.at_head {r : RxRing} {c : Completion} (h : r.Completed c)
    (hf : c.fault = false) : c.ring.result c.ring.rxHead = r.ahead c.numCredit := by
  have htaken : c.taken = c.numCredit := by simp [Completion.taken, hf]
  have hle := h.numCredit_le
  rw [h.result, h.head, htaken, ahead]
  by_cases hlt : c.numCredit < rxBufPages
  · have hout : (r.rxHead+c.numCredit) % rxBufPages ∉ span rxBufPages r.rxHead c.numCredit := by
      rw [mem_span_slot (by omega) (by omega) (by omega)]
      omega
    rw [if_neg hout, if_pos hlt]
  · have hN : c.numCredit = rxBufPages := by omega
    rw [if_neg hlt, hN, if_pos (mem_span_round (Nat.mod_lt _ (by decide)))]

theorem span_snoc_ite (N a k i : Nat) (x y : XdmaResult) :
    (if i ∈ span N a (k+1) then x else y) =
      if i = (a+k) % N then x else if i ∈ span N a k then x else y := by
  rw [span_succ]
  by_cases hi : i = (a+k) % N <;> simp [hi]

theorem front_succ (r : RxRing) (n : Nat) : r.front (n+1) = r.front n ++ [r.ahead n] := by
  simp [RxRing.front, List.range_succ]

theorem Completion.next_malformed {c : Completion} {x : XdmaResult}
    (hx : c.ring.result c.ring.rxHead = x) (h : x.malformed = true) : c.next =
      ⟨c.ring.take,c.pktLength,true,c.eop,c.numCredit,c.warned || x.status == 0⟩ := by
  simp [next, hx, h]

theorem Completion.next_valid {c : Completion} {x : XdmaResult}
    (hx : c.ring.result c.ring.rxHead = x) (h : x.malformed = false) : c.next =
      ⟨c.ring.take,c.pktLength+x.length.toNat,c.fault,if x.eop then true else c.eop,c.numCredit+1,
        c.warned || x.status == 0⟩ := by
  simp [next, hx, h]

theorem RxRing.Completed.next {r : RxRing} {c : Completion} (h : r.Completed c)
    (hm : c.more = true) : r.Completed c.next := by
  simp only [Completion.more, Bool.and_eq_true, Bool.or_eq_true, bne_iff_ne, Bool.not_eq_true',
    Bool.or_eq_false_iff] at hm
  obtain ⟨hmore,hf,he⟩ := hm
  have htaken : c.taken = c.numCredit := by simp [Completion.taken, hf]
  have hlook := h.at_head hf
  have hhead := h.head
  rw [htaken] at hhead
  have hplain : ∀ j < c.numCredit, (r.ahead j).eop = false := by
    intro j hj
    rcases Nat.lt_or_ge (j+1) c.numCredit with hlt | hge
    · exact h.plain j (by omega)
    · have hnot := mt h.eop.mpr (by simp [he])
      simp only [not_exists, not_and, Bool.not_eq_true] at hnot
      exact hnot j (by omega)
  have hresult : ∀ i, c.ring.take.result i =
      if i ∈ span rxBufPages r.rxHead (c.numCredit+1) then .cleared else r.result i := by
    intro i
    rw [span_snoc_ite, ← hhead, ← htaken, ← h.result]
    exact Function.update_apply ..
  have hstep : (c.ring.rxHead+1) % rxBufPages = (r.rxHead+(c.numCredit+1)) % rxBufPages := by
    simp [hhead, Nat.add_assoc]
  have hwarned : (c.warned || (r.ahead c.numCredit).status == 0) = true ↔
      ∃ j < c.numCredit+1, (r.ahead j).status = 0 := by
    rw [Bool.or_eq_true, beq_iff_eq, h.warned, htaken]
    constructor
    · rintro (⟨j,hj,hz⟩ | hz)
      · exact ⟨j,by omega,hz⟩
      · exact ⟨c.numCredit,by omega,hz⟩
    · rintro ⟨j,hj,hz⟩
      rcases Nat.lt_succ_iff_lt_or_eq.mp hj with hlt | rfl
      · exact Or.inl ⟨j,hlt,hz⟩
      · exact Or.inr hz
  have hwithin : r.rxOverrun = false → ∀ j < c.numCredit+1,
      (r.rxHead+j) % rxBufPages ≠ r.rxTail := by
    intro hoff j hj
    rcases Nat.lt_succ_iff_lt_or_eq.mp hj with hlt | rfl
    · exact h.within hoff j (by omega)
    · simpa [h.overrun, hoff, hhead, h.tail] using hmore
  cases hmal : (r.ahead c.numCredit).malformed with
  | true =>
    rw [Completion.next_malformed hlook hmal]
    exact ⟨h.tail,h.overrun,hstep,hresult,h.length,h.valid,fun j hj => hplain j (by
      simp only [Completion.taken, Bool.toNat_true] at hj
      omega),fun _ => hmal,h.eop,hwarned,hwithin⟩
  | false =>
    rw [Completion.next_valid hlook hmal, hf]
    refine ⟨h.tail,h.overrun,hstep,hresult,?_,?_,?_,by simp,?_,hwarned,hwithin⟩
    · simp [h.length, front_succ, resultBytes, total_append]
    · intro j hj
      rcases Nat.lt_succ_iff_lt_or_eq.mp hj with hlt | rfl
      · exact h.valid j hlt
      · exact hmal
    · intro j hj
      simp only [Completion.taken, Bool.toNat_false] at hj
      exact hplain j (by omega)
    · simp [he]

theorem Completion.more_runs {c : Completion} (h : c.more = true) :
    c.fault = false ∧ c.eop = false := by
  simp only [more, Bool.and_eq_true, Bool.not_eq_true', Bool.or_eq_false_iff] at h
  exact h.2

theorem RxRing.complete_spec (r : RxRing) : r.Completed r.complete ∧ r.complete.more = false := by
  have hstart : r.Completed ⟨r,0,false,false,0,false⟩ := by
    refine ⟨rfl,rfl,(Nat.mod_eq_of_lt r.head_lt).symm,?_,rfl,?_,?_,?_,?_,?_,?_⟩
    all_goals simp [Completion.taken]
  have hround : ∀ k c, (r.Completed c ∧ (c.fault = false → c.numCredit = k)) → c.more = true →
      r.Completed c.next ∧ (c.next.fault = false → c.next.numCredit = k+1) := by
    intro k c h hm
    refine ⟨h.1.next hm,fun hf => ?_⟩
    have hc := h.2 (Completion.more_runs hm).1
    cases hmal : (c.ring.result c.ring.rxHead).malformed with
    | true => simp [Completion.next_malformed rfl hmal] at hf
    | false => simp [Completion.next_valid rfl hmal, hc]
  obtain ⟨k,_,⟨h,hk⟩,hend⟩ := whileLoop_rounds
    (fun k c => r.Completed c ∧ (c.fault = false → c.numCredit = k)) (rxBufPages+1) (z := 0)
    ⟨hstart,fun _ => rfl⟩ hround
  refine ⟨h,?_⟩
  rcases hend with hend | hfull
  · exact hend
  · -- more results than slots: the last was cleared before
    by_contra hmore
    have hf := (Completion.more_runs (Bool.eq_true_of_not_eq_false hmore)).1
    have hcount := hk hf
    have hle := h.numCredit_le
    omega

theorem RxRing.taken_pos {r : RxRing} (h : r.rxOverrun = true) : 0 < r.complete.taken := by
  obtain ⟨hspec,hend⟩ := r.complete_spec
  by_contra hzero
  simp only [Completion.taken, Nat.not_lt, Nat.le_zero, Nat.add_eq_zero_iff, Bool.toNat_eq_zero]
    at hzero
  have he : r.complete.eop = false := by
    rw [Bool.eq_false_iff, ne_eq, hspec.eop]
    rintro ⟨j,hj,_⟩
    omega
  simp [Completion.more, hspec.overrun, h, hzero.2, he] at hend

/-- The engine's `int`s hold these numbers with room to spare. -/
theorem RxRing.Completed.pktLength_bounds {r : RxRing} {c : Completion} (h : r.Completed c) :
    c.numCredit ≤ c.pktLength ∧ c.pktLength ≤ rxBufBlock*c.numCredit := by
  have hlen : (r.front c.numCredit).length = c.numCredit := by simp [front]
  rw [h.length]
  have hb := total_bounds (fun x : XdmaResult => x.length.toNat) (b := rxBufBlock)
    (t := r.front c.numCredit) ?_
  · rwa [hlen] at hb
  · intro x hx
    obtain ⟨j,hj,rfl⟩ := List.mem_map.mp hx
    have hv := h.valid j (List.mem_range.mp hj)
    simp only [XdmaResult.malformed, Bool.or_eq_false_iff, decide_eq_false_iff_not, Nat.not_lt,
      beq_eq_false_iff_ne, ne_eq] at hv
    refine ⟨Nat.pos_of_ne_zero fun h0 => hv.2 ?_,hv.1.2⟩
    exact BitVec.eq_of_toNat_eq h0

theorem engineRingProcess_atRing (e : Engine) (r : RxRing) : engineRingProcess (e.atRing r) =
    .ok (e.atRing r.process.ring,r.process.eopCount) := by
  obtain ⟨k,_,hend⟩ := r.process_spec
  have hloop := ringProcessLoop_atRing e rxBufPages ⟨r,[]⟩
  have hbuf : (e.atRing r).rxResultBufferVirt = some r.result := rfl
  have hzero : Noticing.eopCount ⟨r,[]⟩ = 0 := rfl
  rw [hzero] at hloop
  simp only [engineRingProcess, hbuf, hloop]
  rw [show whileLoop Noticing.more Noticing.next rxBufPages ⟨r,[]⟩ = r.process from rfl, hend]
  rfl

theorem cyclicShutdown_rx {p : Params} {d d' : Driver} (h : cyclicShutdown p d = .ok d')
    {r : RxRing} (hr : d.engine.Shows r) :
    d'.engine.Shows r ∧ d'.engine.eopFound = d.engine.eopFound := by
  unfold cyclicShutdown at h
  split at h
  · split at h
    · cases h
    · rename_i d₁ hd₁
      cases h
      have h₁ : d₁.engine.Shows r ∧ d₁.engine.eopFound = d.engine.eopFound := by
        split at hd₁
        · cases hd₁
          exact ⟨hr,rfl⟩
        · unfold engineTransferDequeue at hd₁
          repeat' split at hd₁
          all_goals cases hd₁
          exact ⟨⟨hr.head,hr.tail,hr.overrun,hr.result⟩,rfl⟩
      exact ⟨⟨h₁.1.head,h₁.1.tail,h₁.1.overrun,h₁.1.result⟩,h₁.2⟩
  · cases h
    exact ⟨hr,rfl⟩

theorem engineServiceCyclicInterrupt_ring {p : Params} {d d' : Driver} {r : RxRing} {status : U32}
    {rc : Int} (hr : d.engine.Shows r)
    (h : engineServiceCyclicInterrupt p d status = .ok (d',rc)) :
    d'.engine.Shows r.process.ring ∧ d'.engine.eopFound =
      (d.engine.eopFound || (!p.enableCreditMp && decide (0 < r.process.eopCount))) := by
  have hread : (d.engine.statusRead status).Shows r := ⟨hr.head,hr.tail,hr.overrun,hr.result⟩
  have hring := engineRingProcess_atRing (d.engine.statusRead status) r
  rw [hread.atRing] at hring
  simp only [engineServiceCyclicInterrupt, hring] at h
  split at h
  · split at h
    · cases h
    · rename_i hquiet
      obtain ⟨d₁,hd₁,heq⟩ := Except.map_ok h
      cases heq
      obtain ⟨h₁,h₂⟩ := cyclicShutdown_rx hd₁ (r := r.process.ring) ⟨rfl,rfl,rfl,rfl⟩
      refine ⟨h₁,h₂.trans ?_⟩
      simp only [Bool.or_eq_true, decide_eq_true_eq, not_or, Bool.not_eq_true] at hquiet
      simp [hquiet, Engine.atRing, Engine.statusRead]
  · obtain ⟨d₁,hd₁,heq⟩ := Except.map_ok h
    cases heq
    obtain ⟨h₁,h₂⟩ := cyclicShutdown_rx hd₁ (r := r.process.ring) (by
      split <;> exact ⟨rfl,rfl,rfl,rfl⟩)
    refine ⟨h₁,h₂.trans ?_⟩
    split
    · rename_i hset
      simp only [Bool.and_eq_true, Bool.not_eq_true', decide_eq_true_eq] at hset
      simp [hset]
    · rename_i hset
      rw [Bool.eq_false_of_not_eq_true hset]
      simp [Engine.atRing, Engine.statusRead]

end DmaCamera
