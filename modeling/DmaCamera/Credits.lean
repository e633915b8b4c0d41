import DmaCamera.ReceiveRing
set_option autoImplicit false

namespace DmaCamera
open Circular Countdown Runs

/-! Credit mode: the device consumes a credit a slot, and a call hands back the
credits of the slots it took. -/

/-- The credits a call has yet to hand back. -/
def heldBy : Option CyclicCall → Nat
  | some call => call.numCredit
  | none => 0

def RxSystem.held (n : Nat) (s : RxSystem) : Nat :=
  total (fun i => heldBy (s.calls i)) (List.range n)

def RxSystem.account (n : Nat) (s : RxSystem) : Nat := s.credits+s.waiting.length+s.held n

theorem held_update {n i : Nat} {s t : RxSystem} (hi : i < n) {call : Option CyclicCall}
    (h : t.calls = Function.update s.calls i call) :
    t.held n+heldBy (s.calls i) = s.held n+heldBy call := by
  have htotal := total_range_update (fun i => heldBy (s.calls i)) (fun i => heldBy (t.calls i)) hi
    fun j hj => by simp [h, hj]
  simpa [RxSystem.held, h] using htotal

structure RxSystem.Credited (n : Nat) (s : RxSystem) : Prop extends s.InOrder where
  bound : s.account n ≤ initialCredits
  absent : ∀ i, n ≤ i → s.calls i = none
  paid : ∀ i call, s.calls i = some call →
    call.pktLength = 0 ∨ call.rc = some 0 → call.numCredit = 0

theorem RxSystem.Credited.few {n : Nat} {s : RxSystem} (h : s.Credited n) :
    s.waiting.length < rxBufPages ∧ s.noticed.length < rxBufPages := by
  have hb := h.bound
  have ha := h.ahead
  simp only [account, initialCredits] at hb
  simp only [rxBufPages]
  omega

theorem held_idle {n : Nat} {s : RxSystem} (h : ∀ i, s.calls i = none) : s.held n = 0 := by
  induction n with
  | zero => rfl
  | succ n ih =>
    simp only [RxSystem.held, List.range_succ, total_append, total_cons, total_nil, h] at ih ⊢
    simpa [heldBy] using ih

theorem cyclicTransferSetup_credited (n : Nat) :
    (cyclicTransferSetup true).Credited n ∧ (cyclicTransferSetup true).account n = initialCredits := by
  have haccount : (cyclicTransferSetup true).account n = initialCredits := by
    rw [RxSystem.account, held_idle fun _ => rfl]
    rfl
  exact ⟨⟨cyclicTransferSetup_inOrder true,Nat.le_of_eq haccount,fun _ _ => rfl,by
    simp [cyclicTransferSetup]⟩,haccount⟩

def RxRing.meetsMalformed (r : RxRing) : Prop :=
  ∃ k, (∀ j ≤ k, (r.rxHead+j) % rxBufPages ≠ r.rxTail) ∧ (r.ahead k).malformed = true ∧
    ∀ j < k, (r.ahead j).malformed = false ∧ (r.ahead j).eop = false

theorem complete_fault_iff {r : RxRing} (hoff : r.rxOverrun = false) :
    r.complete.fault = true ↔ r.meetsMalformed := by
  obtain ⟨h,hend⟩ := r.complete_spec
  constructor
  · intro hf
    have htaken : r.complete.taken = r.complete.numCredit+1 := by simp [Completion.taken, hf]
    exact ⟨r.complete.numCredit,fun j hj => h.within hoff j (by omega),h.fault hf,
      fun j hj => ⟨h.valid j hj,h.plain j (by omega)⟩⟩
  · rintro ⟨k,hk,hmal,hfront⟩
    by_contra hf
    have hf := Bool.eq_false_iff.mpr hf
    have htaken : r.complete.taken = r.complete.numCredit := by simp [Completion.taken, hf]
    -- the section took fewer results than `k+1`, and did not stop there by itself
    have hle : r.complete.numCredit ≤ k := by
      by_contra hlt
      have hv := h.valid k (by omega)
      simp [hmal] at hv
    have he : r.complete.eop = false := by
      rw [Bool.eq_false_iff, ne_eq, h.eop]
      rintro ⟨j,hj,hjeop⟩
      have hplain := (hfront j (by omega)).2
      simp [hjeop] at hplain
    simp only [Completion.more, hf, he, h.overrun, hoff, h.head, h.tail, htaken, Bool.or_false,
      Bool.not_false, Bool.and_true, bne_eq_false_iff_eq] at hend
    exact hk _ hle hend

/-- No locked section meets a malformed result. -/
def meetsWellFormed (s : RxSystem) : RxOp → Prop
  | .lock _ => ¬ s.ring.meetsMalformed
  | _ => True

theorem RxSystem.Credited.fill {n : Nat} {s : RxSystem} (h : s.Credited n) (hpos : 0 < s.credits)
    (x : XdmaResult) : (s.fill x).Credited n ∧ (s.fill x).account n = s.account n := by
  have hheld : (s.fill x).held n = s.held n := rfl
  have haccount : (s.fill x).account n = s.account n := by
    simp only [RxSystem.account, hheld]
    simp only [RxSystem.fill, List.length_append, List.length_singleton]
    omega
  exact ⟨⟨h.toInOrder.fill h.few.1 x,haccount ▸ h.bound,h.absent,h.paid⟩,haccount⟩

theorem RxSystem.Credited.process {n : Nat} {s : RxSystem} (h : s.Credited n) :
    s.process.Credited n ∧ s.process.account n = s.account n := by
  have hheld : s.process.held n = s.held n := by
    refine total_congr fun i _ => ?_
    rw [s.process_calls]
    cases s.calls i <;> simp [heldBy]
  have haccount : s.process.account n = s.account n := by simp [RxSystem.account, hheld]
  refine ⟨⟨h.toInOrder.process,haccount ▸ h.bound,fun i hi => ?_,fun i call hi => ?_⟩,haccount⟩
  · simp [s.process_calls, h.absent i hi]
  · rw [s.process_calls, Option.map_eq_some_iff] at hi
    obtain ⟨old,hold,rfl⟩ := hi
    exact h.paid i old hold

theorem RxSystem.Credited.lock {n i : Nat} {s : RxSystem} (h : s.Credited n) (hi : i < n)
    (hnone : s.calls i = none) : (s.lock i).Credited n ∧
      (s.lock i).account n+(if s.ring.complete.fault then s.ring.complete.taken else 0) =
        s.account n := by
  have hoff := h.toInOrder.off h.few.2
  obtain ⟨horder,hcount⟩ := h.toInOrder.lock hoff i
  have hb := h.bound
  cases hf : s.ring.complete.fault with
  | true =>
    have hcalls : (s.lock i).calls = s.calls := by simp [RxSystem.lock, hf]
    have haccount : (s.lock i).account n+s.ring.complete.taken = s.account n := by
      simp only [RxSystem.account, RxSystem.held, hcalls] at hcount ⊢
      simp only [RxSystem.lock] at hcount ⊢
      omega
    exact ⟨⟨horder,by omega,hcalls ▸ h.absent,hcalls ▸ h.paid⟩,haccount⟩
  | false =>
    have hcalls : (s.lock i).calls = Function.update s.calls i (some s.ring.unlocked) := by
      simp [RxSystem.lock, hf]
    have hheld := held_update hi hcalls
    simp only [hnone, heldBy, Nat.add_zero, RxRing.unlocked] at hheld
    have htaken : s.ring.complete.taken = s.ring.complete.numCredit := by
      simp [Completion.taken, hf]
    have haccount : (s.lock i).account n = s.account n := by
      simp only [RxSystem.account, hheld] at hcount ⊢
      simp only [RxSystem.lock] at hcount ⊢
      omega
    refine ⟨⟨horder,haccount ▸ h.bound,fun j hj => ?_,fun j call hj => ?_⟩,haccount⟩
    · have hne : j ≠ i := by omega
      simpa [hcalls, hne] using h.absent j hj
    · by_cases hji : j = i
      · subst j
        simp only [hcalls, Function.update_self, Option.some.injEq] at hj
        have hbounds := s.ring.complete_spec.1.pktLength_bounds
        rintro (hzero | hzero)
        · simp only [← hj, RxRing.unlocked] at hzero ⊢
          omega
        · simp [← hj, RxRing.unlocked] at hzero
      · exact h.paid j call (by simpa [hcalls, hji] using hj)

theorem RxSystem.Credited.goOn {n i : Nat} {s t : RxSystem} {call call' : CyclicCall} (h : s.Credited n)
    (hcall : s.calls i = some call) (hcalls : t.calls = Function.update s.calls i (some call'))
    (horder : t.InOrder) (hcredits : t.credits = s.credits) (hwaiting : t.waiting = s.waiting)
    (hnum : call'.numCredit = call.numCredit)
    (hpaid : call'.pktLength = 0 ∨ call'.rc = some 0 → call.numCredit = 0) :
    t.Credited n ∧ t.account n = s.account n := by
  have hi : i < n := by
    by_contra hge
    simp [h.absent i (by omega)] at hcall
  have hheld := held_update hi hcalls
  simp only [hcall, heldBy, hnum] at hheld
  have haccount : t.account n = s.account n := by
    simp only [RxSystem.account, hcredits, hwaiting]
    omega
  refine ⟨⟨horder,haccount ▸ h.bound,fun j hj => ?_,fun j old hj => ?_⟩,haccount⟩
  · have hne : j ≠ i := by omega
    simpa [hcalls, hne] using h.absent j hj
  · by_cases hji : j = i
    · subst j
      simp only [hcalls, Function.update_self, Option.some.injEq] at hj
      rw [← hj, hnum]
      exact hpaid
    · exact h.paid j old (by simpa [hcalls, hji] using hj)

theorem RxSystem.Credited.done {n i : Nat} {s : RxSystem} {call : CyclicCall} (h : s.Credited n)
    (hcall : s.calls i = some call) :
    (s.credit i call).Credited n ∧ (s.credit i call).account n = s.account n := by
  have hi : i < n := by
    by_contra hge
    simp [h.absent i (by omega)] at hcall
  have hheld := held_update (t := s.credit i call) hi rfl
  simp only [hcall, heldBy, Nat.add_zero] at hheld
  have hcredits : (s.credit i call).credits = s.credits+call.numCredit := by
    by_cases hz : call.rc = some 0
    · simp [RxSystem.credit, hz, h.paid i call hcall (Or.inr hz)]
    · simp [RxSystem.credit, hz]
  have haccount : (s.credit i call).account n = s.account n := by
    have hwaiting : (s.credit i call).waiting = s.waiting := rfl
    simp only [RxSystem.account, hcredits, hwaiting]
    omega
  refine ⟨⟨h.toInOrder.keep rfl rfl rfl rfl rfl,haccount ▸ h.bound,fun j hj => ?_,fun j old hj => ?_⟩,
    haccount⟩
  · have hne : j ≠ i := by omega
    simpa [RxSystem.credit, hne] using h.absent j hj
  · by_cases hji : j = i
    · subst j
      simp [RxSystem.credit] at hj
    · exact h.paid j old (by simpa [RxSystem.credit, hji] using hj)

theorem RxSystem.Credited.step {c : RxSetting} {s t : RxSystem} {op : RxOp} (hc : c.creditMode = true)
    (h : s.Credited c.readers) (hn : rxNext c s op = some t) : t.Credited c.readers ∧
      (t.account c.readers = initialCredits ↔
        s.account c.readers = initialCredits ∧ meetsWellFormed s op) := by
  have hsame : t.account c.readers = s.account c.readers → meetsWellFormed s op →
      (t.account c.readers = initialCredits ↔
        s.account c.readers = initialCredits ∧ meetsWellFormed s op) := by
    intro ha hw
    simp [ha, hw]
  rcases rxNext_cases hn with ⟨x,rfl,_,hpos,rfl⟩ | ⟨rfl,rfl⟩ | ⟨i,rfl,hi,hnone,rfl⟩ |
    ⟨i,call,hcall,⟨rc,rfl,_,_,hrc,rfl⟩ | ⟨rfl,_,_,rfl⟩ | ⟨rfl,_,rfl⟩⟩
  · obtain ⟨ht,ha⟩ := h.fill (hpos hc) x
    exact ⟨ht,hsame ha trivial⟩
  · obtain ⟨ht,ha⟩ := h.process
    exact ⟨ht,hsame ha trivial⟩
  · obtain ⟨ht,ha⟩ := h.lock hi hnone
    refine ⟨ht,?_⟩
    have hfault := complete_fault_iff (h.toInOrder.off h.few.2)
    have hb := h.bound
    simp only [meetsWellFormed, ← hfault]
    cases hf : s.ring.complete.fault with
    | true =>
      have htaken : 0 < s.ring.complete.taken := by simp [Completion.taken, hf]
      simp only [hf, if_true] at ha
      simp only [not_true, and_false, iff_false]
      omega
    | false =>
      simp only [hf, Bool.false_eq_true, if_false, Nat.add_zero] at ha
      simp [ha]
  · obtain ⟨ht,ha⟩ := h.goOn (t := s.copied i call rc) hcall rfl
      (h.toInOrder.keep rfl rfl rfl rfl rfl) rfl rfl rfl fun hz =>
        h.paid i call hcall (Or.inl (hz.elim id fun hz => hrc (Option.some.inj hz)))
    exact ⟨ht,hsame ha trivial⟩
  · obtain ⟨ht,ha⟩ := h.goOn (t := s.clear i call) hcall rfl
      (h.toInOrder.clear (h.toInOrder.off h.few.2) i call) rfl rfl rfl (h.paid i call hcall)
    exact ⟨ht,hsame ha trivial⟩
  · obtain ⟨ht,ha⟩ := h.done hcall
    exact ⟨ht,hsame ha trivial⟩

section runs

variable {n : Nat} {device : XdmaResult → Bool} {ops : List RxOp} {s : RxSystem}

/-- Whatever the results and the copies: the device is never granted more slots
than are free. -/
theorem run_neverOverruns
    (r : Run (stepOf (rxNext ⟨true,n,device⟩)) anyStep (cyclicTransferSetup true) ops s) :
    s.credits+s.waiting.length ≤ initialCredits ∧ s.ring.rxOverrun = false ∧
      ∀ x t, rxNext ⟨true,n,device⟩ s (.fill x) = some t → s.filled % rxBufPages ∉ s.waiting := by
  have h : s.Credited n := r.invariant (RxSystem.Credited n) (cyclicTransferSetup_credited n).1
    fun s op t hs _ ht => (hs.step rfl ht).1
  have hb := h.bound
  simp only [RxSystem.account] at hb
  exact ⟨by omega,h.toInOrder.off h.few.2,fun _ _ _ => h.toInOrder.slot_free h.few.1⟩

end runs

def twoCallsOps : List RxOp :=
  [.fill ⟨0x52B40001,64⟩,.fill ⟨1,0⟩,.process,.lock 0,.lock 1,.fill ⟨0x52B40001,4096⟩,.copied 0 3,
    .clear 0,.process,.credit 0]

def twoCallsLeft : RxSystem :=
  replay (rxNext ⟨true,2,fun _ => true⟩) (cyclicTransferSetup true) twoCallsOps

theorem run_neverOverruns_two : twoCallsLeft.credits+twoCallsLeft.waiting.length ≤ 128 ∧
    twoCallsLeft.ring.rxOverrun = false ∧
    ∀ x t, rxNext ⟨true,2,fun _ => true⟩ twoCallsLeft (.fill x) = some t →
      twoCallsLeft.filled % rxBufPages ∉ twoCallsLeft.waiting :=
  run_neverOverruns (replay_run (by decide))

/-- With no call on its way all credits are accounted for exactly if no locked
section so far met a malformed result. -/
theorem run_accounts {n : Nat} {device : XdmaResult → Bool} {ops : List RxOp} {s : RxSystem}
    (r : Run (stepOf (rxNext ⟨true,n,device⟩)) anyStep (cyclicTransferSetup true) ops s)
    (hidle : ∀ i, s.calls i = none) : s.credits+s.waiting.length = initialCredits ↔
      Run (stepOf (rxNext ⟨true,n,device⟩)) meetsWellFormed (cyclicTransferSetup true) ops s := by
  obtain ⟨hstart,hfull⟩ := cyclicTransferSetup_credited n
  have h := (r.kept_iff (RxSystem.Credited n) (fun s => s.account n = initialCredits) hstart hfull
    fun s op t hs ht => hs.step rfl ht).2
  rw [← h, RxSystem.account, held_idle hidle, Nat.add_zero]

def packetOps : List RxOp :=
  [.fill ⟨0x52B40001,64⟩,.process,.lock 0,.copied 0 64,.clear 0,.credit 0]

def packetLeft : RxSystem :=
  replay (rxNext ⟨true,1,fun _ => true⟩) (cyclicTransferSetup true) packetOps

theorem run_accounts_packet : packetLeft.credits+packetLeft.waiting.length = initialCredits ∧
    Run (stepOf (rxNext ⟨true,1,fun _ => true⟩)) meetsWellFormed (cyclicTransferSetup true) packetOps
      packetLeft := by
  have hcredits : packetLeft.credits+packetLeft.waiting.length = initialCredits := by decide
  have hidle : ∀ i, packetLeft.calls i = none := by
    intro i
    cases i <;> rfl
  exact ⟨hcredits,(run_accounts (replay_run (by decide)) hidle).mp hcredits⟩

def malformedOps : List RxOp := [.fill ⟨1,0⟩,.process,.lock 0]

def malformedLeft : RxSystem :=
  replay (rxNext ⟨true,1,fun _ => true⟩) (cyclicTransferSetup true) malformedOps

theorem malformed_leaks : ¬ ∀ ops s,
    Run (stepOf (rxNext ⟨true,1,fun _ => true⟩)) anyStep (cyclicTransferSetup true) ops s →
      (∀ i, s.calls i = none) → s.credits+s.waiting.length = initialCredits := by
  intro h
  have hleft := h malformedOps malformedLeft (replay_run (by decide)) fun _ => rfl
  exact absurd hleft (by decide)

end DmaCamera
