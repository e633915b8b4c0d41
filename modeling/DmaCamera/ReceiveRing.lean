import DmaCamera.Receive
import DmaCamera.Library.Runs
set_option autoImplicit false

namespace DmaCamera
open Circular Countdown Runs

/-! A device that fills slot after slot, the service handler, and any number of
calls of `complete_cyclic`. -/

/-- `enable_credit_mp`, how many threads call, and which results the device writes. -/
structure RxSetting where
  creditMode : Bool
  readers : Nat
  device : XdmaResult → Bool

/-- A call of `complete_cyclic` behind its locked section: its locals, what
`copy_cyclic_to_user` returned, and whether `rx_overrun` is written. -/
structure CyclicCall where
  head : Nat
  pktLength : Nat
  numCredit : Nat
  rc : Option Nat
  cleared : Bool
  /-- The overrun flag was raised after the unlock. -/
  late : Bool
  deriving DecidableEq, Repr

/-- The history: slots filled and consumed so far, filled but not consumed, and
noticed but not consumed. -/
structure RxSystem where
  ring : RxRing
  credits : Nat
  calls : Nat → Option CyclicCall
  filled : Nat
  consumed : Nat
  waiting : List Nat
  noticed : List Nat

inductive RxOp where
  | fill (result : XdmaResult)
  | process
  | lock (i : Nat)
  | copied (i : Nat) (rc : Nat)
  | clear (i : Nat)
  | credit (i : Nat)
  deriving DecidableEq, Repr

def initialCredits : Nat := 128

def cyclicTransferSetup (creditMode : Bool) : RxSystem where
  ring := ⟨0,0,false,fun _ => .cleared,rxBufPages_pos,rxBufPages_pos⟩
  credits := if creditMode then initialCredits else 0
  calls := fun _ => none
  filled := 0
  consumed := 0
  waiting := []
  noticed := []

def RxSystem.fill (s : RxSystem) (result : XdmaResult) : RxSystem :=
  { s with
    ring := { s.ring with result := Function.update s.ring.result (s.filled % rxBufPages) result }
    credits := s.credits-1
    filled := s.filled+1
    waiting := s.waiting ++ [s.filled % rxBufPages] }

def RxRing.raises (r : RxRing) : Bool := r.process.ring.rxOverrun && !r.rxOverrun

def RxSystem.process (s : RxSystem) : RxSystem :=
  { s with
    ring := s.ring.process.ring
    noticed := s.noticed ++ s.ring.process.slots
    calls := fun i => (s.calls i).map fun c => { c with late := c.late || s.ring.raises } }

def RxRing.unlocked (r : RxRing) : CyclicCall :=
  ⟨r.rxHead,r.complete.pktLength,r.complete.numCredit,none,false,false⟩

/-- The locked section of a call; after a fault the call is over. -/
def RxSystem.lock (s : RxSystem) (i : Nat) : RxSystem :=
  let d := s.ring.complete
  let slots := span rxBufPages s.ring.rxHead d.taken
  { s with
    ring := d.ring
    consumed := s.consumed+d.taken
    waiting := s.waiting.removeAll slots
    noticed := s.noticed.removeAll slots
    calls := if d.fault then s.calls else Function.update s.calls i (some s.ring.unlocked) }

def RxSystem.copied (s : RxSystem) (i : Nat) (call : CyclicCall) (rc : Nat) : RxSystem :=
  { s with calls := Function.update s.calls i (some { call with rc := some rc }) }

def RxRing.clear (r : RxRing) : RxRing := { r with rxOverrun := false }

def RxSystem.clear (s : RxSystem) (i : Nat) (call : CyclicCall) : RxSystem :=
  { s with
    ring := s.ring.clear
    calls := Function.update s.calls i (some { call with cleared := true }) }

/-- The credits register is written, if anything was copied, and the call returns. -/
def RxSystem.credit (s : RxSystem) (i : Nat) (call : CyclicCall) : RxSystem :=
  { s with
    credits := if call.rc = some 0 then s.credits else s.credits+call.numCredit
    calls := Function.update s.calls i none }

def rxNext (c : RxSetting) (s : RxSystem) : RxOp → Option RxSystem
  | .fill result =>
    if c.device result ∧ (c.creditMode → 0 < s.credits) then some (s.fill result) else none
  | .process => some s.process
  | .lock i => if i < c.readers ∧ s.calls i = none then some (s.lock i) else none
  -- the whole packet was copied, or `copy_to_user` left `rc` bytes of a block
  | .copied i rc => match s.calls i with
    | some call =>
      if call.rc = none ∧ rc ≤ call.pktLength ∧ (rc = 0 → call.pktLength = 0) then
        some (s.copied i call rc)
      else none
    | none => none
  | .clear i => match s.calls i with
    | some call =>
      if call.rc.isSome ∧ call.cleared = false then some (s.clear i call) else none
    | none => none
  | .credit i => match s.calls i with
    | some call =>
      if call.cleared = true then some (s.credit i call) else none
    | none => none

@[simp] theorem RxSystem.process_consumed (s : RxSystem) : s.process.consumed = s.consumed := rfl
@[simp] theorem RxSystem.process_filled (s : RxSystem) : s.process.filled = s.filled := rfl
@[simp] theorem RxSystem.process_waiting (s : RxSystem) : s.process.waiting = s.waiting := rfl
theorem RxSystem.process_calls (s : RxSystem) (i : Nat) : s.process.calls i =
    (s.calls i).map fun c => { c with late := c.late || s.ring.raises } := rfl
@[simp] theorem RxSystem.process_credits (s : RxSystem) : s.process.credits = s.credits := rfl

theorem rxNext_cases {c : RxSetting} {s t : RxSystem} {op : RxOp} (h : rxNext c s op = some t) :
    (∃ x, op = .fill x ∧ c.device x = true ∧ (c.creditMode = true → 0 < s.credits) ∧
      t = s.fill x) ∨
    (op = .process ∧ t = s.process) ∨
    (∃ i, op = .lock i ∧ i < c.readers ∧ s.calls i = none ∧ t = s.lock i) ∨
    (∃ i call, s.calls i = some call ∧
      ((∃ rc, op = .copied i rc ∧ call.rc = none ∧ rc ≤ call.pktLength ∧
        (rc = 0 → call.pktLength = 0) ∧ t = s.copied i call rc) ∨
      (op = .clear i ∧ call.rc.isSome = true ∧ call.cleared = false ∧ t = s.clear i call) ∨
      (op = .credit i ∧ call.cleared = true ∧ t = s.credit i call))) := by
  cases op with
  | fill x =>
    simp only [rxNext, Option.ite_none_right_eq_some, Option.some.injEq] at h
    exact Or.inl ⟨x,rfl,h.1.1,h.1.2,h.2.symm⟩
  | process =>
    simp only [rxNext, Option.some.injEq] at h
    exact Or.inr (Or.inl ⟨rfl,h.symm⟩)
  | lock i =>
    simp only [rxNext, Option.ite_none_right_eq_some, Option.some.injEq] at h
    exact Or.inr (Or.inr (Or.inl ⟨i,rfl,h.1.1,h.1.2,h.2.symm⟩))
  | copied i rc =>
    cases hc : s.calls i with
    | none => simp [rxNext, hc] at h
    | some call =>
      simp only [rxNext, hc, Option.ite_none_right_eq_some, Option.some.injEq] at h
      exact Or.inr (Or.inr (Or.inr ⟨i,call,hc,Or.inl ⟨rc,rfl,h.1.1,h.1.2.1,h.1.2.2,h.2.symm⟩⟩))
  | clear i =>
    cases hc : s.calls i with
    | none => simp [rxNext, hc] at h
    | some call =>
      simp only [rxNext, hc, Option.ite_none_right_eq_some, Option.some.injEq] at h
      exact Or.inr (Or.inr (Or.inr ⟨i,call,hc,Or.inr (Or.inl ⟨rfl,h.1.1,h.1.2,h.2.symm⟩)⟩))
  | credit i =>
    cases hc : s.calls i with
    | none => simp [rxNext, hc] at h
    | some call =>
      simp only [rxNext, hc, Option.ite_none_right_eq_some, Option.some.injEq] at h
      exact Or.inr (Or.inr (Or.inr ⟨i,call,hc,Or.inr (Or.inr ⟨rfl,h.1,h.2.symm⟩)⟩))

/-! The slots from the head to the tail, as long as the head has not passed the tail. -/

structure RxSystem.Tracked (s : RxSystem) : Prop where
  head : s.ring.rxHead = s.consumed % rxBufPages
  tail : s.ring.rxTail = (s.consumed+s.noticed.length) % rxBufPages
  noticed : s.noticed = span rxBufPages s.consumed s.noticed.length
  within : s.noticed.length ≤ rxBufPages

theorem cyclicTransferSetup_tracked (creditMode : Bool) : (cyclicTransferSetup creditMode).Tracked :=
  ⟨rfl,rfl,rfl,Nat.zero_le _⟩

/-- What the handler does to a ring whose overrun flag tells full from empty. -/
structure RxSystem.Notices (s : RxSystem) (k : Nat) : Prop where
  spec : s.ring.Processed s.ring.process k
  more : s.ring.process.more = false
  tracked : s.process.Tracked
  length : s.process.noticed.length = s.noticed.length+k
  overrun : s.process.ring.rxOverrun = true ↔
    s.ring.rxOverrun = true ∨ 0 < k ∧ s.noticed.length+k = rxBufPages

theorem RxSystem.Tracked.process {s : RxSystem} (h : s.Tracked)
    (hoff : s.ring.rxOverrun = false → s.noticed.length < rxBufPages) : ∃ k, s.Notices k := by
  have hwithin := h.within
  obtain ⟨k,hk,hmore,hround,htail,hslots,hover⟩ := s.ring.process_round h.head h.tail
    (Nat.le_add_right _ _) (by omega) fun ho => by
      have := hoff ho
      omega
  have hlen : s.process.noticed.length = s.noticed.length+k := by
    simp [RxSystem.process, hk.slots]
  refine ⟨k,hk,hmore,⟨?_,?_,?_,?_⟩,hlen,?_⟩
  · exact hk.head.trans h.head
  · rw [hlen, process_consumed, ← Nat.add_assoc]
    exact htail
  · rw [hlen, process_consumed, span_add, ← h.noticed, ← hslots]
    rfl
  · omega
  · refine hover.trans (or_congr_right (and_congr_right fun _ => ?_))
    omega

theorem RxSystem.Tracked.taken_le {s : RxSystem} (h : s.Tracked) (hoff : s.ring.rxOverrun = false)
    : s.ring.complete.taken ≤ s.noticed.length := by
  by_contra hlt
  refine s.ring.complete_spec.1.within hoff s.noticed.length (by omega) ?_
  rw [h.head, h.tail, Nat.mod_add_mod]

theorem RxSystem.Tracked.lock {s : RxSystem} (h : s.Tracked)
    (hle : s.ring.complete.taken ≤ s.noticed.length) (i : Nat) : (s.lock i).Tracked ∧
      (s.lock i).noticed.length = s.noticed.length-s.ring.complete.taken := by
  have hspec := s.ring.complete_spec.1
  have hwithin := h.within
  have hnoticed : (s.lock i).noticed = span rxBufPages (s.consumed+s.ring.complete.taken)
      (s.noticed.length-s.ring.complete.taken) := by
    have hremove := span_removeAll (N := rxBufPages) (a := s.consumed) (b := s.consumed)
      (m := s.noticed.length) (c := s.consumed+s.ring.complete.taken) (Nat.le_refl _) (by omega)
      (by omega) (by omega)
    rw [Nat.max_eq_right (by omega), Nat.add_sub_cancel_left, Nat.add_sub_add_left, ← h.noticed]
      at hremove
    rw [← hremove, ← span_mod (a := s.consumed), ← h.head]
    rfl
  have hlen : (s.lock i).noticed.length = s.noticed.length-s.ring.complete.taken := by
    rw [hnoticed, span_length]
  refine ⟨⟨?_,?_,?_,?_⟩,hlen⟩
  · exact hspec.head.trans (by simp [RxSystem.lock, h.head])
  · rw [hlen]
    have hsum : (s.lock i).consumed+(s.noticed.length-s.ring.complete.taken) =
        s.consumed+s.noticed.length := by
      simp only [RxSystem.lock]
      omega
    rw [hsum]
    exact hspec.tail.trans h.tail
  · rw [hlen]
    exact hnoticed
  · omega

/-! The slots the device has filled, as long as it fills no slot that waits. -/

structure RxSystem.InOrder (s : RxSystem) : Prop extends s.Tracked where
  waiting : s.waiting = span rxBufPages s.consumed s.waiting.length
  ahead : s.noticed.length ≤ s.waiting.length
  filled : s.filled = s.consumed+s.waiting.length
  room : s.waiting.length ≤ rxBufPages
  overrun : s.ring.rxOverrun = true ↔ s.noticed.length = rxBufPages
  empty : ∀ i, (s.ring.result i).status ≠ 0 → i ∈ s.waiting

theorem cyclicTransferSetup_inOrder (creditMode : Bool) :
    (cyclicTransferSetup creditMode).InOrder :=
  ⟨cyclicTransferSetup_tracked creditMode,rfl,Nat.le_refl _,rfl,Nat.zero_le _,
    by simp [cyclicTransferSetup, rxBufPages],fun _ h => absurd rfl h⟩

theorem RxSystem.InOrder.off {s : RxSystem} (h : s.InOrder) (hlt : s.noticed.length < rxBufPages) :
    s.ring.rxOverrun = false :=
  Bool.eq_false_iff.mpr fun ho => Nat.ne_of_lt hlt (h.overrun.mp ho)

theorem RxSystem.InOrder.slot_free {s : RxSystem} (h : s.InOrder)
    (hroom : s.waiting.length < rxBufPages) : s.filled % rxBufPages ∉ s.waiting := by
  rw [h.waiting, h.filled, mem_span_slot (by omega) (by omega) (by omega)]
  omega

theorem RxSystem.InOrder.keep {s t : RxSystem} (h : s.InOrder) (hring : t.ring = s.ring)
    (hfilled : t.filled = s.filled) (hconsumed : t.consumed = s.consumed)
    (hwaiting : t.waiting = s.waiting) (hnoticed : t.noticed = s.noticed) : t.InOrder := by
  obtain ⟨⟨h₁,h₂,h₃,h₄⟩,h₅,h₆,h₇,h₈,h₉,h₁₀⟩ := h
  rw [← hring] at h₁ h₂ h₉ h₁₀
  rw [← hfilled] at h₇
  rw [← hconsumed] at h₁ h₂ h₃ h₅ h₇
  rw [← hwaiting] at h₅ h₆ h₇ h₈ h₁₀
  rw [← hnoticed] at h₂ h₃ h₄ h₆ h₉
  exact ⟨⟨h₁,h₂,h₃,h₄⟩,h₅,h₆,h₇,h₈,h₉,h₁₀⟩

theorem RxRing.clear_off {r : RxRing} (h : r.rxOverrun = false) : r.clear = r := by
  simp [clear, ← h]

theorem RxSystem.InOrder.clear {s : RxSystem} (h : s.InOrder) (hoff : s.ring.rxOverrun = false)
    (i : Nat) (call : CyclicCall) : (s.clear i call).InOrder :=
  h.keep (s.ring.clear_off hoff) rfl rfl rfl rfl

theorem RxSystem.InOrder.fill {s : RxSystem} (h : s.InOrder)
    (hroom : s.waiting.length < rxBufPages) (x : XdmaResult) : (s.fill x).InOrder := by
  have hlen : (s.fill x).waiting.length = s.waiting.length+1 := by simp [RxSystem.fill]
  have hahead := h.ahead
  refine ⟨⟨h.head,h.tail,h.noticed,h.within⟩,?_,?_,?_,?_,h.overrun,?_⟩
  · rw [hlen, span_succ]
    simp only [RxSystem.fill, h.filled, ← h.waiting]
  · rw [hlen]
    exact Nat.le_succ_of_le hahead
  · rw [hlen]
    simp only [RxSystem.fill, h.filled, Nat.add_assoc]
  · omega
  · intro i hi
    simp only [RxSystem.fill, Function.update_apply] at hi
    simp only [RxSystem.fill, List.mem_append, List.mem_singleton]
    by_cases hslot : i = s.filled % rxBufPages
    · exact Or.inr hslot
    · rw [if_neg hslot] at hi
      exact Or.inl (h.empty i hi)

theorem RxSystem.InOrder.process {s : RxSystem} (h : s.InOrder) : s.process.InOrder := by
  have hwithin := h.within
  obtain ⟨k,hk⟩ := h.toTracked.process fun hoff => by
    have hne := mt h.overrun.mpr (by simp [hoff])
    omega
  have hround := hk.tracked.within
  rw [hk.length] at hround
  refine ⟨hk.tracked,h.waiting,?_,h.filled,h.room,?_,?_⟩
  · -- the last slot noticed was one that waits
    rw [hk.length, process_waiting]
    have hahead := h.ahead
    by_contra hlt
    have hlast := h.empty _ (hk.spec.status (k-1) (by omega))
    rw [h.waiting, h.tail, Nat.mod_add_mod,
      mem_span_slot (by omega) (by omega) h.room] at hlast
    omega
  · rw [hk.overrun, hk.length, h.overrun]
    omega
  · intro i hi
    simp only [RxSystem.process, hk.spec.result] at hi
    exact h.empty i hi

theorem RxSystem.InOrder.lock {s : RxSystem} (h : s.InOrder) (hoff : s.ring.rxOverrun = false)
    (i : Nat) : (s.lock i).InOrder ∧
      (s.lock i).waiting.length+s.ring.complete.taken = s.waiting.length := by
  have hle := h.toTracked.taken_le hoff
  have hahead := h.ahead
  have hroom := h.room
  have hspec := s.ring.complete_spec.1
  obtain ⟨htracked,hlen⟩ := h.toTracked.lock hle i
  have hwaiting : (s.lock i).waiting = span rxBufPages (s.consumed+s.ring.complete.taken)
      (s.waiting.length-s.ring.complete.taken) := by
    have hremove := span_removeAll (N := rxBufPages) (a := s.consumed) (b := s.consumed)
      (m := s.waiting.length) (c := s.consumed+s.ring.complete.taken) (Nat.le_refl _) (by omega)
      (by omega) (by omega)
    rw [Nat.max_eq_right (by omega), Nat.add_sub_cancel_left, Nat.add_sub_add_left, ← h.waiting]
      at hremove
    rw [← hremove, ← span_mod (a := s.consumed), ← h.head]
    rfl
  have hcount : (s.lock i).waiting.length+s.ring.complete.taken = s.waiting.length := by
    rw [hwaiting, span_length]
    omega
  refine ⟨⟨htracked,?_,?_,?_,?_,?_,?_⟩,hcount⟩
  · rw [hwaiting, span_length]
    rfl
  · omega
  · simp only [RxSystem.lock] at hcount ⊢
    rw [h.filled]
    omega
  · omega
  · have hov : (s.lock i).ring.rxOverrun = false := hspec.overrun.trans hoff
    have hne := mt h.overrun.mpr (by simp [hoff])
    have hwithin := h.within
    rw [hov, hlen]
    simp only [Bool.false_eq_true, false_iff]
    omega
  · intro j hj
    simp only [RxSystem.lock, hspec.result] at hj
    split at hj
    · exact absurd rfl hj
    · rename_i hout
      have hin := h.empty j hj
      simp only [RxSystem.lock, List.removeAll, List.mem_filter]
      exact ⟨hin,by simpa using hout⟩

end DmaCamera
