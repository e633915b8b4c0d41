import DmaCamera.ReceiveRing
set_option autoImplicit false

namespace DmaCamera
open Circular Countdown Runs

/-! The overrun flag: it alone tells a full ring from an empty one, and a reader
clears it without the lock. -/

def RxRing.between (r : RxRing) : List Nat :=
  if r.rxHead = r.rxTail then
    if r.rxOverrun then span rxBufPages r.rxHead rxBufPages else []
  else span rxBufPages r.rxHead ((r.rxTail+rxBufPages-r.rxHead) % rxBufPages)

def RxSystem.findsEop (s : RxSystem) : Prop :=
  ∃ k < s.noticed.length, (s.ring.ahead k).eop = true ∧ ∀ j ≤ k, (s.ring.ahead j).malformed = false

/-- With the flag up a section finds an EOP, and a call clears the flag only if
it was not raised behind the call's back. -/
def flagInStep (s : RxSystem) : RxOp → Prop
  | .lock _ => s.ring.rxOverrun = true → s.findsEop
  | .clear i => ∀ call, s.calls i = some call → call.late = true → s.ring.rxOverrun = false
  | _ => True

structure RxSystem.Flagged (s : RxSystem) : Prop extends s.Tracked where
  full : s.ring.rxOverrun = false → s.noticed.length < rxBufPages
  raised : s.ring.rxOverrun = true → s.noticed.length = rxBufPages ∨
    ∃ i call, s.calls i = some call ∧ call.cleared = false
  early : ∀ i call, s.calls i = some call → call.cleared = false → call.late = false →
    s.noticed.length < rxBufPages
  status : ∀ i ∈ s.noticed, (s.ring.result i).status ≠ 0

theorem cyclicTransferSetup_flagged (creditMode : Bool) :
    (cyclicTransferSetup creditMode).Flagged where
  toTracked := cyclicTransferSetup_tracked creditMode
  full _ := by simp [cyclicTransferSetup, rxBufPages]
  raised h := by simp [cyclicTransferSetup] at h
  early i call h := by simp [cyclicTransferSetup] at h
  status := by simp [cyclicTransferSetup]

theorem complete_eop {r : RxRing} {k : Nat} (heop : (r.ahead k).eop = true)
    (hvalid : ∀ j ≤ k, (r.ahead j).malformed = false) :
    r.complete.taken ≤ k+1 ∧ r.complete.fault = false := by
  have h := r.complete_spec.1
  have hle : r.complete.taken ≤ k+1 := by
    by_contra hlt
    have hplain := h.plain k (by omega)
    simp [heop] at hplain
  refine ⟨hle,?_⟩
  by_contra hf
  have hf := Bool.eq_true_of_not_eq_false hf
  have hmal := h.fault hf
  have htaken : r.complete.taken = r.complete.numCredit+1 := by simp [Completion.taken, hf]
  simp [hvalid r.complete.numCredit (by omega)] at hmal

theorem RxSystem.Flagged.takes {s : RxSystem} (h : s.Flagged) (hok : s.ring.rxOverrun = true → s.findsEop) :
    s.ring.complete.taken ≤ s.noticed.length ∧
      (s.ring.rxOverrun = true → s.ring.complete.fault = false) := by
  cases ho : s.ring.rxOverrun with
  | false => exact ⟨h.toTracked.taken_le ho,by simp⟩
  | true =>
    obtain ⟨k,hk,heop,hvalid⟩ := hok ho
    obtain ⟨hle,hf⟩ := complete_eop heop hvalid
    exact ⟨by omega,fun _ => hf⟩

theorem ahead_noticed {s : RxSystem} (h : s.Tracked) {j : Nat} (hj : j < s.noticed.length) :
    (s.consumed+j) % rxBufPages ∈ s.noticed ∧
      s.ring.ahead j = s.ring.result ((s.consumed+j) % rxBufPages) := by
  have hwithin := h.within
  refine ⟨?_,?_⟩
  · rw [h.noticed, mem_span_slot (by omega) (by omega) hwithin]
    omega
  · rw [RxRing.ahead, if_pos (by omega), h.head, Nat.mod_add_mod]

theorem RxSystem.Flagged.fill {s : RxSystem} (h : s.Flagged) {x : XdmaResult} (hx : x.status ≠ 0) :
    (s.fill x).Flagged where
  toTracked := ⟨h.head,h.tail,h.noticed,h.within⟩
  full := h.full
  raised := h.raised
  early := h.early
  status i hi := by
    simp only [RxSystem.fill, Function.update_apply]
    split
    · exact hx
    · exact h.status i hi

theorem RxSystem.Flagged.process {s : RxSystem} (h : s.Flagged) : s.process.Flagged := by
  have hwithin := h.within
  obtain ⟨k,hk⟩ := h.toTracked.process h.full
  have hround := hk.tracked.within
  rw [hk.length] at hround
  have hidle : s.ring.rxOverrun = true → k = 0 := by
    intro ho
    by_contra hpos
    simp [hk.spec.off (by omega)] at ho
  refine ⟨hk.tracked,fun hoff => ?_,fun ho => ?_,fun i call hi hc hl => ?_,fun i hi => ?_⟩
  · rw [hk.length]
    have hno := mt hk.overrun.mpr (by simp [hoff])
    simp only [not_or, Bool.not_eq_true, not_and] at hno
    have hold := h.full hno.1
    rcases Nat.eq_zero_or_pos k with hz | hpos
    · omega
    · have := hno.2 hpos
      omega
  · rw [hk.length]
    rcases hk.overrun.mp ho with hold | ⟨_,hfull⟩
    · rw [hidle hold]
      refine (h.raised hold).imp id fun ⟨i,call,hi,hc⟩ => ?_
      exact ⟨i,{ call with late := call.late || s.ring.raises },by simp [s.process_calls, hi],hc⟩
    · exact Or.inl hfull
  · rw [s.process_calls, Option.map_eq_some_iff] at hi
    obtain ⟨old,hold,rfl⟩ := hi
    simp only [Bool.or_eq_false_iff] at hl
    have hm := h.early i old hold hc hl.1
    rw [hk.length]
    by_cases ho : s.ring.rxOverrun = true
    · rw [hidle ho]
      exact hm
    · have hquiet : s.process.ring.rxOverrun = false := by
        have := hl.2
        simp only [RxRing.raises, Bool.and_eq_false_iff, Bool.not_eq_false'] at this
        exact this.resolve_right ho
      have hno := mt hk.overrun.mpr (by simp [hquiet])
      simp only [not_or, not_and] at hno
      rcases Nat.eq_zero_or_pos k with hz | hpos
      · omega
      · have := hno.2 hpos
        omega
  · simp only [RxSystem.process, List.mem_append, hk.spec.slots, mem_span] at hi
    simp only [RxSystem.process, hk.spec.result]
    rcases hi with hi | ⟨j,hj,rfl⟩
    · exact h.status i hi
    · exact hk.spec.status j hj

theorem RxSystem.Flagged.lock {s : RxSystem} (h : s.Flagged) (i : Nat)
    (hok : s.ring.rxOverrun = true → s.findsEop) : (s.lock i).Flagged := by
  have hwithin := h.within
  have hspec := s.ring.complete_spec.1
  obtain ⟨hle,hsound⟩ := h.takes hok
  obtain ⟨htracked,hlen⟩ := h.toTracked.lock hle i
  have hov : (s.lock i).ring.rxOverrun = s.ring.rxOverrun := hspec.overrun
  have hfew : (s.lock i).noticed.length < rxBufPages := by
    rw [hlen]
    cases ho : s.ring.rxOverrun with
    | false =>
      have := h.full ho
      omega
    | true =>
      have := s.ring.taken_pos ho
      omega
  refine ⟨htracked,fun _ => hfew,fun ho => ?_,fun _ _ _ _ _ => hfew,fun j hj => ?_⟩
  · rw [hov] at ho
    exact Or.inr ⟨i,s.ring.unlocked,by simp [RxSystem.lock, hsound ho],rfl⟩
  · simp only [RxSystem.lock, List.removeAll, List.mem_filter, Bool.not_eq_true',
      List.elem_eq_mem, decide_eq_false_iff_not] at hj
    simp only [RxSystem.lock, hspec.result, if_neg hj.2]
    exact h.status j hj.1

theorem RxSystem.Flagged.goOn {s t : RxSystem} {i : Nat} {call : Option CyclicCall} (h : s.Flagged)
    (hring : t.ring = s.ring) (hconsumed : t.consumed = s.consumed)
    (hnoticed : t.noticed = s.noticed) (hcalls : t.calls = Function.update s.calls i call)
    (hcall : ∀ c, call = some c → ∃ old, s.calls i = some old ∧ c.cleared = old.cleared ∧
      c.late = old.late)
    (hgone : ∀ old, s.calls i = some old → old.cleared = false →
      ∃ c, call = some c ∧ c.cleared = false) : t.Flagged := by
  have hold : ∀ j c, t.calls j = some c → ∃ old, s.calls j = some old ∧
      c.cleared = old.cleared ∧ c.late = old.late := by
    intro j c hj
    by_cases hji : j = i
    · subst j
      exact hcall c (by simpa [hcalls] using hj)
    · exact ⟨c,by simpa [hcalls, hji] using hj,rfl,rfl⟩
  refine ⟨⟨?_,?_,?_,?_⟩,?_,fun ho => ?_,fun j c hj hc hl => ?_,?_⟩
  all_goals try rw [hnoticed]
  all_goals try rw [hring]
  · rw [hconsumed]
    exact h.head
  · rw [hconsumed]
    exact h.tail
  · rw [hconsumed]
    exact h.noticed
  · exact h.within
  · exact h.full
  · rw [hring] at ho
    refine (h.raised ho).imp id fun ⟨j,old,hj,hc⟩ => ?_
    by_cases hji : j = i
    · subst j
      obtain ⟨c,hcall,hc'⟩ := hgone old hj hc
      exact ⟨i,c,by simp [hcalls, hcall],hc'⟩
    · exact ⟨j,old,by simp [hcalls, hji, hj],hc⟩
  · obtain ⟨old,hs,hcl,hla⟩ := hold j c hj
    exact h.early j old hs (hcl ▸ hc) (hla ▸ hl)
  · exact h.status

theorem RxSystem.Flagged.clear {s : RxSystem} (h : s.Flagged) {i : Nat} {call : CyclicCall}
    (hcall : s.calls i = some call) (hopen : call.cleared = false)
    (hok : call.late = true → s.ring.rxOverrun = false) : (s.clear i call).Flagged := by
  have hfew : s.noticed.length < rxBufPages := by
    cases hl : call.late with
    | true => exact h.full (hok hl)
    | false => exact h.early i call hcall hopen hl
  have hoff : (s.clear i call).ring.rxOverrun = false := rfl
  exact ⟨⟨h.head,h.tail,h.noticed,h.within⟩,fun _ => hfew,fun ho => by simp [hoff] at ho,
    fun _ _ _ _ _ => hfew,h.status⟩

theorem RxSystem.Flagged.step {c : RxSetting} {s t : RxSystem} {op : RxOp}
    (hdevice : ∀ x, c.device x = true → x.status ≠ 0) (h : s.Flagged) (hok : flagInStep s op)
    (hn : rxNext c s op = some t) : t.Flagged := by
  rcases rxNext_cases hn with ⟨x,rfl,hx,_,rfl⟩ | ⟨rfl,rfl⟩ | ⟨i,rfl,_,_,rfl⟩ |
    ⟨i,call,hcall,⟨rc,rfl,_,_,_,rfl⟩ | ⟨rfl,_,hopen,rfl⟩ | ⟨rfl,hdone,rfl⟩⟩
  · exact h.fill (hdevice x hx)
  · exact h.process
  · exact h.lock i hok
  · refine h.goOn rfl rfl rfl rfl (fun c hc => ?_) fun old hold hc => ?_
    · cases hc
      exact ⟨call,hcall,rfl,rfl⟩
    · cases hcall.symm.trans hold
      exact ⟨_,rfl,hc⟩
  · exact h.clear hcall hopen (hok call hcall)
  · refine h.goOn rfl rfl rfl rfl (fun c hc => by cases hc) fun old hold hc => ?_
    cases hcall.symm.trans hold
    simp [hdone] at hc

theorem RxSystem.Flagged.sound {s : RxSystem} (h : s.Flagged)
    (hok : s.ring.rxOverrun = true → s.findsEop) :
    ∀ j < s.ring.complete.taken, (s.ring.ahead j).status ≠ 0 := by
  intro j hj
  obtain ⟨hmem,heq⟩ := ahead_noticed h.toTracked (Nat.lt_of_lt_of_le hj (h.takes hok).1)
  rw [heq]
  exact h.status _ hmem

theorem RxSystem.Tracked.between {s : RxSystem} (h : s.Tracked)
    (hfull : s.ring.rxOverrun = true ↔ s.noticed.length = rxBufPages) :
    s.noticed = s.ring.between := by
  have hwithin := h.within
  have hround : ∀ n, span rxBufPages s.ring.rxHead n = span rxBufPages s.consumed n := by
    intro n
    rw [h.head, span_mod]
  rw [RxRing.between]
  by_cases hmet : s.ring.rxHead = s.ring.rxTail
  · rw [if_pos hmet]
    cases ho : s.ring.rxOverrun with
    | true =>
      rw [if_pos rfl, hround]
      have hn := h.noticed
      rwa [hfull.mp ho] at hn
    | false =>
      have hne := mt hfull.mpr (by simp [ho])
      have hzero : s.noticed.length = 0 := by
        by_contra hpos
        rw [h.head, h.tail] at hmet
        exact slot_ne (by omega) (by omega) hmet
      simpa using List.length_eq_zero_iff.mp hzero
  · have hlt : s.noticed.length < rxBufPages := by
      by_contra hge
      have hN : s.noticed.length = rxBufPages := by omega
      rw [h.head, h.tail, hN, Nat.add_mod_right] at hmet
      exact hmet rfl
    rw [if_neg hmet, hround, h.tail, h.head, distance hlt]
    exact h.noticed

/-- A run that keeps the flag in step takes results the device wrote and no others,
and between its calls head, tail and flag tell what was noticed. -/
theorem run_recovers {creditMode : Bool} {n : Nat} {ops : List RxOp} {s : RxSystem}
    (r : Run (stepOf (rxNext ⟨creditMode,n,fun x => x.status != 0⟩)) flagInStep
      (cyclicTransferSetup creditMode) ops s) :
    (∀ i, flagInStep s (.lock i) → s.ring.complete.warned = false ∧
      (∀ j < s.ring.complete.taken, (s.ring.ahead j).status ≠ 0) ∧
      (s.ring.complete.fault = true → ∃ j < s.ring.complete.taken,
        (s.ring.ahead j).malformed = true)) ∧
    ((∀ i, s.calls i = none) → s.noticed = s.ring.between ∧
      (s.noticed = [] → s.ring.rxOverrun = false)) := by
  have h : s.Flagged := r.invariant RxSystem.Flagged (cyclicTransferSetup_flagged creditMode)
    fun s op t hs hok ht => hs.step (by simp) hok ht
  refine ⟨fun i hok => ?_,fun hidle => ?_⟩
  · have hsound := h.sound hok
    have hspec := s.ring.complete_spec.1
    refine ⟨?_,hsound,fun hf => ⟨s.ring.complete.numCredit,?_,hspec.fault hf⟩⟩
    · rw [Bool.eq_false_iff, ne_eq, hspec.warned]
      rintro ⟨j,hj,hzero⟩
      exact hsound j hj hzero
    · simp [Completion.taken, hf]
  · have hfull : s.ring.rxOverrun = true ↔ s.noticed.length = rxBufPages := by
      constructor
      · intro ho
        rcases h.raised ho with hfull | ⟨i,call,hi,_⟩
        · exact hfull
        · simp [hidle i] at hi
      · intro hN
        by_contra hoff
        have := h.full (Bool.eq_false_iff.mpr hoff)
        omega
    refine ⟨h.toTracked.between hfull,fun hempty => ?_⟩
    have hne := mt hfull.mp (by simp [hempty, rxBufPages])
    exact Bool.eq_false_iff.mpr hne

def twoSlotOps : List RxOp := [.fill ⟨0x52B40000,4096⟩,.fill ⟨0x52B40001,7⟩,.process]

def twoSlots : RxSystem :=
  replay (rxNext ⟨false,1,fun x => x.status != 0⟩) (cyclicTransferSetup false) twoSlotOps

theorem run_recovers_twoSlots : twoSlots.ring.complete.warned = false ∧
    twoSlots.noticed = twoSlots.ring.between := by
  have hrun : Run (stepOf (rxNext ⟨false,1,fun x => x.status != 0⟩)) flagInStep
      (cyclicTransferSetup false) twoSlotOps twoSlots :=
    Run.labels (replay_run (by decide)) (by simp [twoSlotOps, flagInStep])
  have hoff : twoSlots.ring.rxOverrun = false := by decide
  exact ⟨((run_recovers hrun).1 0 (by simp [flagInStep, hoff])).1,
    ((run_recovers hrun).2 fun _ => rfl).1⟩

def fullRingOps : List RxOp := List.replicate 256 (.fill ⟨0x52B40000,4096⟩) ++ [.process]

def fullRing : RxSystem :=
  replay (rxNext ⟨false,1,fun x => x.status != 0⟩) (cyclicTransferSetup false) fullRingOps

theorem fullRing_warns : ¬ ∀ ops s,
    Run (stepOf (rxNext ⟨false,1,fun x => x.status != 0⟩)) anyStep (cyclicTransferSetup false) ops s →
      s.ring.complete.warned = false := by
  intro h
  have hwarns : endsIn (rxNext ⟨false,1,fun x => x.status != 0⟩) anyStep
      (fun s => s.ring.complete.warned) (cyclicTransferSetup false) fullRingOps = true := by
    decide +kernel
  obtain ⟨hrun,hend⟩ := replay_ends hwarns
  have hquiet := h fullRingOps fullRing hrun
  exact Bool.false_ne_true (hquiet.symm.trans hend)

/-! One reader, whatever the results: the ring may look empty only when nothing
noticed is in it, unless the flag is cleared right after it was raised. -/

/-- A noticed result at the head of a ring with head and tail together is flagged. -/
def RxSystem.FullIsFlagged (s : RxSystem) : Prop :=
  s.ring.rxHead = s.ring.rxTail → s.ring.rxHead ∈ s.noticed → s.ring.rxOverrun = true

def RxSystem.NothingHidden (s : RxSystem) : Prop :=
  s.ring.rxHead = s.ring.rxTail → s.noticed ≠ [] → s.ring.rxOverrun = true

theorem RxSystem.NothingHidden.flagged {s : RxSystem} (h : s.NothingHidden) : s.FullIsFlagged :=
  fun hmet hmem => h hmet (List.ne_nil_of_mem hmem)

/-- The flag is not cleared by a call behind whose back it was raised. -/
def notRaisedSince (s : RxSystem) : RxOp → Prop
  | .clear i => ∀ call, s.calls i = some call → call.late = false
  | _ => True

structure RxSystem.Spread (s : RxSystem) (H T : Nat) : Prop where
  head : s.ring.rxHead = H % rxBufPages
  tail : s.ring.rxTail = T % rxBufPages
  le : H+s.noticed.length ≤ T
  round : T ≤ H+rxBufPages
  noticed : s.noticed = span rxBufPages (T-s.noticed.length) s.noticed.length
  full : s.ring.rxOverrun = false → T < H+rxBufPages
  alone : ∀ i, 1 ≤ i → s.calls i = none
  early : ∀ call, s.calls 0 = some call → call.cleared = false → call.late = false →
    T < H+rxBufPages
  late : ∀ call, s.calls 0 = some call → call.cleared = false → call.late = true →
    s.ring.rxOverrun = true ∧ T = H+rxBufPages ∧ 0 < s.noticed.length

theorem RxSystem.Spread.nothingHidden {s : RxSystem} {H T : Nat} (h : s.Spread H T) :
    s.NothingHidden := by
  intro hmet hne
  have hpos := List.length_pos_iff.mpr hne
  have hle := h.le
  by_contra hoff
  have hlt := h.full (Bool.eq_false_iff.mpr hoff)
  rw [h.head, h.tail] at hmet
  exact slot_ne (by omega) hlt hmet

theorem cyclicTransferSetup_spread (creditMode : Bool) :
    (cyclicTransferSetup creditMode).Spread 0 0 where
  head := rfl
  tail := rfl
  le := Nat.le_refl _
  round := Nat.zero_le _
  noticed := rfl
  full _ := by decide
  alone _ _ := rfl
  early _ h := by cases h
  late _ h := by cases h

theorem RxSystem.Spread.process {s : RxSystem} {H T : Nat} (h : s.Spread H T) :
    ∃ T', s.process.Spread H T' := by
  have hle := h.le
  obtain ⟨k,hk,_,hround,htail,hslots,hover⟩ := s.ring.process_round h.head h.tail (by omega)
    h.round h.full
  have hlen : s.process.noticed.length = s.noticed.length+k := by
    simp [RxSystem.process, hslots]
  have hidle : s.ring.rxOverrun = true → k = 0 := by
    intro ho
    by_contra hpos
    simp [hk.off (by omega)] at ho
  have hraises : s.ring.raises = true ↔
      s.ring.rxOverrun = false ∧ 0 < k ∧ T+k = H+rxBufPages := by
    simp only [RxRing.raises, Bool.and_eq_true, Bool.not_eq_true', hover]
    cases s.ring.rxOverrun <;> simp
  have hover' : s.process.ring.rxOverrun = true ↔
      s.ring.rxOverrun = true ∨ 0 < k ∧ T+k = H+rxBufPages := hover
  refine ⟨T+k,hk.head.trans h.head,htail,by omega,hround,?_,fun hoff => ?_,fun i hi => ?_,
    fun call hcall hopen hlate => ?_,fun call hcall hopen hlate => ?_⟩
  · have hx : T+k-(s.noticed.length+k) = T-s.noticed.length := by omega
    have hy : T-s.noticed.length+s.noticed.length = T := by omega
    rw [hlen, hx, span_add, ← h.noticed, hy, ← hslots]
    rfl
  · have hno := mt hover'.mpr (by simp [hoff])
    simp only [not_or, Bool.not_eq_true, not_and] at hno
    have hold := h.full hno.1
    rcases Nat.eq_zero_or_pos k with hz | hpos
    · omega
    · have := hno.2 hpos
      omega
  · simp [s.process_calls, h.alone i hi]
  · rw [s.process_calls, Option.map_eq_some_iff] at hcall
    obtain ⟨old,hold,rfl⟩ := hcall
    simp only [Bool.or_eq_false_iff] at hlate
    have hearly := h.early old hold hopen hlate.1
    have hno := mt hraises.mpr (by simp [hlate.2])
    rcases Nat.eq_zero_or_pos k with hz | hpos
    · omega
    · have := not_and.mp (not_and.mp hno (hk.off hpos)) hpos
      omega
  · rw [s.process_calls, Option.map_eq_some_iff] at hcall
    obtain ⟨old,hold,rfl⟩ := hcall
    simp only [Bool.or_eq_true] at hlate
    rw [hlen, hover']
    rcases hlate with hlate | hlate
    · obtain ⟨ho,hT,hpos⟩ := h.late old hold hopen hlate
      exact ⟨Or.inl ho,by rw [hidle ho]; omega,by omega⟩
    · obtain ⟨_,hpos,hT⟩ := hraises.mp hlate
      exact ⟨Or.inr ⟨hpos,hT⟩,by omega,by omega⟩

theorem RxSystem.Spread.lock {s : RxSystem} {H T : Nat} (h : s.Spread H T)
    (hnone : s.calls 0 = none) : ∃ H' T', (s.lock 0).Spread H' T' := by
  have hle := h.le
  have hround := h.round
  have hspec := s.ring.complete_spec.1
  have hov : (s.lock 0).ring.rxOverrun = s.ring.rxOverrun := hspec.overrun
  have hhead : (s.lock 0).ring.rxHead = (H+s.ring.complete.taken) % rxBufPages := by
    rw [show (s.lock 0).ring.rxHead = _ from hspec.head, h.head, Nat.mod_add_mod]
  have hcalls : ∀ call, (s.lock 0).calls 0 = some call → call.late = false := by
    intro call hcall
    simp only [RxSystem.lock] at hcall
    split at hcall
    · simp [hnone] at hcall
    · simp only [Function.update_self, Option.some.injEq] at hcall
      rw [← hcall]
      rfl
  have halone : ∀ i, 1 ≤ i → (s.lock 0).calls i = none := by
    intro i hi
    have hne : i ≠ 0 := by omega
    simp only [RxSystem.lock]
    split
    · exact h.alone i hi
    · simpa [hne] using h.alone i hi
  have hnoticed : (s.lock 0).noticed =
      s.noticed.removeAll (span rxBufPages H s.ring.complete.taken) := by
    rw [← span_mod (a := H), ← h.head]
    rfl
  have hnolate : ∀ call (P : Prop), (s.lock 0).calls 0 = some call → call.late = true → P := by
    intro call P hcall hlate
    simp [hcalls call hcall] at hlate
  by_cases hpass : s.ring.complete.taken ≤ T-H
  · -- within the slots up to the tail
    have hkeep := span_removeAll (N := rxBufPages) (a := T-s.noticed.length) (b := H)
      (m := s.noticed.length) (c := H+s.ring.complete.taken) (by omega) (by omega) (by omega)
      (by omega)
    rw [← h.noticed, Nat.add_sub_cancel_left, ← hnoticed,
      show T-s.noticed.length+s.noticed.length = T by omega] at hkeep
    have hlen : (s.lock 0).noticed.length =
        T-max (T-s.noticed.length) (H+s.ring.complete.taken) := by rw [hkeep, span_length]
    have hbehind : T < H+s.ring.complete.taken+rxBufPages := by
      cases ho : s.ring.rxOverrun with
      | false =>
        have := h.full ho
        omega
      | true =>
        have := s.ring.taken_pos ho
        omega
    refine ⟨H+s.ring.complete.taken,T,hhead,hspec.tail.trans h.tail,by omega,by omega,?_,
      fun _ => hbehind,halone,fun _ _ _ _ => hbehind,fun call hcall _ hlate =>
      hnolate call _ hcall hlate⟩
    rw [hlen, show T-(T-max (T-s.noticed.length) (H+s.ring.complete.taken)) =
      max (T-s.noticed.length) (H+s.ring.complete.taken) by omega]
    exact hkeep
  · -- past the tail: all that was noticed is taken
    have hempty : (s.lock 0).noticed = [] := by
      rw [hnoticed, List.removeAll, List.filter_eq_nil_iff]
      intro i hi
      rw [h.noticed] at hi
      obtain ⟨j,hj,rfl⟩ := mem_span.mp hi
      simp only [Bool.not_eq_true, Bool.not_eq_false', List.elem_eq_mem, decide_eq_true_eq]
      refine mem_span.mpr ⟨T-s.noticed.length-H+j,by omega,?_⟩
      congr 1
      omega
    obtain ⟨c,hc,hlo,hhi⟩ := exists_position (N := rxBufPages) (by decide) T
      (H+s.ring.complete.taken)
    refine ⟨H+s.ring.complete.taken,c,hhead,(hspec.tail.trans h.tail).trans hc.symm,?_,by omega,?_,
      fun _ => hhi,halone,fun _ _ _ _ => hhi,fun call hcall _ hlate => hnolate call _ hcall hlate⟩
    · simpa [hempty] using hlo
    · simp [hempty]

theorem RxSystem.Spread.step {creditMode : Bool} {device : XdmaResult → Bool} {s t : RxSystem}
    {H T : Nat} {op : RxOp} (h : s.Spread H T) (hok : notRaisedSince s op)
    (hn : rxNext ⟨creditMode,1,device⟩ s op = some t) : ∃ H' T', t.Spread H' T' := by
  have halone : ∀ i call, s.calls i = some call → i = 0 := by
    intro i call hcall
    by_contra hi
    simp [h.alone i (by omega)] at hcall
  rcases rxNext_cases hn with ⟨x,rfl,_,_,rfl⟩ | ⟨rfl,rfl⟩ | ⟨i,rfl,hi,hnone,rfl⟩ |
    ⟨i,call,hcall,⟨rc,rfl,_,_,_,rfl⟩ | ⟨rfl,_,hopen,rfl⟩ | ⟨rfl,hdone,rfl⟩⟩
  · exact ⟨H,T,h.head,h.tail,h.le,h.round,h.noticed,h.full,h.alone,h.early,h.late⟩
  · obtain ⟨T',hT'⟩ := h.process
    exact ⟨H,T',hT'⟩
  · obtain rfl : i = 0 := by
      simp only at hi
      omega
    exact h.lock hnone
  all_goals obtain rfl := halone i call hcall
  · refine ⟨H,T,h.head,h.tail,h.le,h.round,h.noticed,h.full,fun i hi => ?_,fun c hc => ?_,
      fun c hc => ?_⟩
    · have hne : i ≠ 0 := by omega
      simpa [RxSystem.copied, hne] using h.alone i hi
    · simp only [RxSystem.copied, Function.update_self, Option.some.injEq] at hc
      rw [← hc]
      exact h.early call hcall
    · simp only [RxSystem.copied, Function.update_self, Option.some.injEq] at hc
      rw [← hc]
      exact h.late call hcall
  · have hlt := h.early call hcall hopen (hok call hcall)
    refine ⟨H,T,h.head,h.tail,h.le,h.round,h.noticed,fun _ => hlt,fun i hi => ?_,
      fun _ _ _ _ => hlt,fun c hc hc' => ?_⟩
    · have hne : i ≠ 0 := by omega
      simpa [RxSystem.clear, hne] using h.alone i hi
    · simp only [RxSystem.clear, Function.update_self, Option.some.injEq] at hc
      simp [← hc] at hc'
  · refine ⟨H,T,h.head,h.tail,h.le,h.round,h.noticed,h.full,fun i hi => ?_,fun c hc => ?_,
      fun c hc => ?_⟩
    · have hne : i ≠ 0 := by omega
      simpa [RxSystem.credit, hne] using h.alone i hi
    · simp [RxSystem.credit] at hc
    · simp [RxSystem.credit] at hc

/-- A step that clears the flag behind the handler's back hides what was noticed. -/
theorem RxSystem.Spread.only {creditMode : Bool} {device : XdmaResult → Bool} {s t : RxSystem}
    {H T : Nat} {op : RxOp} (h : s.Spread H T)
    (hn : rxNext ⟨creditMode,1,device⟩ s op = some t) (ht : t.NothingHidden) :
    notRaisedSince s op := by
  cases op with
  | clear i =>
    intro call hcall
    obtain rfl : i = 0 := by
      by_contra hi
      simp [h.alone i (by omega)] at hcall
    simp only [rxNext, hcall, Option.ite_none_right_eq_some, Option.some.injEq] at hn
    obtain ⟨⟨_,hopen⟩,rfl⟩ := hn
    by_contra hlate
    obtain ⟨_,hT,hpos⟩ := h.late call hcall hopen (Bool.eq_true_of_not_eq_false hlate)
    have hmet : s.ring.rxHead = s.ring.rxTail := by
      rw [h.head, h.tail, hT, Nat.add_mod_right]
    have hflag := ht hmet (List.length_pos_iff.mp hpos)
    cases hflag
  | _ => trivial

/-- As long as the flag is never raised between a call's unlock and its clear, a full
ring is flagged after every step; the first clear after such a raise hides results. -/
theorem run_fullIsFlagged {creditMode : Bool} {device : XdmaResult → Bool} {ops : List RxOp}
    {s : RxSystem} (r : Run (stepOf (rxNext ⟨creditMode,1,device⟩)) notRaisedSince
      (cyclicTransferSetup creditMode) ops s) :
    s.FullIsFlagged ∧ ∀ op t, rxNext ⟨creditMode,1,device⟩ s op = some t →
      (t.NothingHidden ↔ notRaisedSince s op) := by
  obtain ⟨⟨H,T,h⟩,hiff⟩ := r.step_iff (fun s => ∃ H T, s.Spread H T) (fun _ t => t.NothingHidden)
    ⟨0,0,cyclicTransferSetup_spread creditMode⟩
    (fun s op t h hok hn => by
      obtain ⟨H,T,h⟩ := h
      obtain ⟨H',T',ht⟩ := h.step hok hn
      exact ⟨⟨H',T',ht⟩,ht.nothingHidden⟩)
    (fun s op t h hn ht => by
      obtain ⟨H,T,h⟩ := h
      exact h.only hn ht)
  exact ⟨h.nothingHidden.flagged,hiff⟩

def copiedOps : List RxOp :=
  [.fill ⟨0x52B40001,64⟩,.process,.lock 0,.fill ⟨0x52B40001,64⟩,.process,.copied 0 64]

def copiedLeft : RxSystem :=
  replay (rxNext ⟨false,1,fun _ => true⟩) (cyclicTransferSetup false) copiedOps

theorem run_fullIsFlagged_copied : copiedLeft.FullIsFlagged ∧
    ∀ op t, rxNext ⟨false,1,fun _ => true⟩ copiedLeft op = some t →
      (t.NothingHidden ↔ notRaisedSince copiedLeft op) :=
  run_fullIsFlagged (Run.labels (replay_run (by decide)) (by simp [copiedOps, notRaisedSince]))

def lappedOps : List RxOp :=
  [.fill ⟨0x52B40001,64⟩,.process,.lock 0] ++ List.replicate 256 (.fill ⟨0x52B40001,64⟩) ++
    [.process,.copied 0 64,.clear 0]

def lapped : RxSystem :=
  replay (rxNext ⟨false,1,fun _ => true⟩) (cyclicTransferSetup false) lappedOps

theorem lapped_hides : ¬ ∀ ops s,
    Run (stepOf (rxNext ⟨false,1,fun _ => true⟩)) anyStep (cyclicTransferSetup false) ops s →
      s.FullIsFlagged := by
  intro h
  have hlapped : endsIn (rxNext ⟨false,1,fun _ => true⟩) anyStep
      (fun s => s.ring.rxHead == s.ring.rxTail && s.noticed.contains s.ring.rxHead &&
        !s.ring.rxOverrun) (cyclicTransferSetup false) lappedOps = true := by decide +kernel
  obtain ⟨hrun,hend⟩ := replay_ends hlapped
  rw [← lapped] at hrun hend
  simp only [Bool.and_eq_true, beq_iff_eq, List.contains_iff_mem, Bool.not_eq_true'] at hend
  obtain ⟨⟨hmet,hmem⟩,hoff⟩ := hend
  have hflagged := h lappedOps lapped hrun hmet hmem
  exact Bool.false_ne_true (hoff.symm.trans hflagged)

end DmaCamera
