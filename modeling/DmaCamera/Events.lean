import DmaCamera.Registers
import DmaCamera.Library.Runs
set_option autoImplicit false

namespace DmaCamera
open Runs

/-! The events device: the user interrupt that raises `events_irq`, and any number
of reads that wait for it and take it. -/

inductive EventPc where
  | idle
  /-- About to test the condition of `wait_event_interruptible`. -/
  | checking
  | asleep
  /-- Past the wait, before the lock. -/
  | woken
  deriving DecidableEq, Repr

structure EventReturn where
  rc : Int
  word : Option U32
  deriving DecidableEq, Repr

structure EventSystem where
  eventsIrq : BitVec 8
  readers : Nat → EventPc
  returns : List EventReturn

inductive EventOp where
  | call (i : Nat) (count : Nat) (pos : Int)
  | check (i : Nat)
  | signal (i : Nat)
  | take (i : Nat) (uncopied : Nat)
  | interrupt
  deriving DecidableEq, Repr

/-- `user_irq_service`: the wake-up sends every sleeper back to its condition. -/
def userIrqService (s : EventSystem) : EventSystem :=
  if s.eventsIrq = 0 then
    { s with
      eventsIrq := 1
      readers := fun i => if s.readers i = .asleep then .checking else s.readers i }
  else s

def EventSystem.goto (s : EventSystem) (i : Nat) (pc : EventPc) : EventSystem :=
  { s with readers := Function.update s.readers i pc }

def EventSystem.leave (s : EventSystem) (i : Nat) (ret : EventReturn) : EventSystem :=
  { s.goto i .idle with returns := s.returns ++ [ret] }

/-- The steps of `char_events_read` and the interrupt. The section that takes the
event, the copy and the return are one step: nothing behind the lock is shared. -/
def eventNext (s : EventSystem) : EventOp → Option EventSystem
  | .call i count pos =>
    if s.readers i ≠ .idle then none
    else if count ≠ 4 then some (s.leave i ⟨-eProto,none⟩)
    else if BitVec.ofInt 64 pos &&& 3 ≠ 0 then some (s.leave i ⟨-eProto,none⟩)
    else some (s.goto i .checking)
  | .check i =>
    if s.readers i ≠ .checking then none
    else if s.eventsIrq ≠ 0 then some (s.goto i .woken)
    else some (s.goto i .asleep)
  | .signal i =>
    if s.readers i ≠ .asleep then none else some (s.leave i ⟨-eRestartSys,none⟩)
  | .take i uncopied =>
    if s.readers i ≠ .woken then none else
      let eventsUser : U32 := s.eventsIrq.setWidth 32
      -- a copy that fails is only logged
      some ({ s with eventsIrq := 0 }.leave i ⟨4,if uncopied = 0 then some eventsUser else none⟩)
  | .interrupt => some (userIrqService s)

def charEventsPoll (s : EventSystem) : U32 := if s.eventsIrq ≠ 0 then 0x41 else 0

structure EventHistory where
  sys : EventSystem
  interrupts : Nat
  /-- An interrupt has come since a read last took the event. -/
  unread : Bool
  /-- Since the reader's check a read took the event, and no interrupt came after. -/
  overtaken : Nat → Bool

def EventHistory.start : EventHistory := ⟨⟨0,fun _ => .idle,[]⟩,0,false,fun _ => false⟩

def EventHistory.record (h : EventHistory) (t : EventSystem) : EventOp → EventHistory
  | .interrupt => ⟨t,h.interrupts+1,true,fun _ => false⟩
  | .check i => { h with sys := t, overtaken := Function.update h.overtaken i false }
  | .take .. => { h with sys := t, unread := false, overtaken := fun _ => true }
  | .call .. | .signal _ => { h with sys := t }

def EventHistory.next (h : EventHistory) (op : EventOp) : Option EventHistory :=
  (eventNext h.sys op).map fun t => h.record t op

def EventReturn.Tells (ret : EventReturn) : Prop := ∃ w, ret.word = some w ∧ w ≠ 0

def EventSystem.served (s : EventSystem) : List EventReturn :=
  s.returns.filter fun ret => decide (ret.rc = 4)

structure EventHistory.Right (h : EventHistory) : Prop where
  tells : ∀ ret ∈ h.sys.returns, ret.rc = 4 → ret.Tells
  counted : h.sys.served.length ≤ h.interrupts
  pending : h.unread = true → h.sys.eventsIrq ≠ 0

/-- No other read has taken the event that this one was woken for, or there is a
new one; and the word can be copied. -/
def takesItsOwn (h : EventHistory) : EventOp → Prop
  | .take i uncopied => h.overtaken i = false ∧ uncopied = 0
  | _ => True

instance (h : EventHistory) : (op : EventOp) → Decidable (takesItsOwn h op)
  | .take .. => inferInstanceAs (Decidable (_ ∧ _))
  | .call .. | .check _ | .signal _ | .interrupt => inferInstanceAs (Decidable True)

section step

variable {s t : EventSystem} {h h' : EventHistory} {op : EventOp} {i j : Nat}

@[simp] theorem EventSystem.goto_eventsIrq (s : EventSystem) (i : Nat) (pc : EventPc) :
    (s.goto i pc).eventsIrq = s.eventsIrq := rfl

@[simp] theorem EventSystem.goto_returns (s : EventSystem) (i : Nat) (pc : EventPc) :
    (s.goto i pc).returns = s.returns := rfl

@[simp] theorem EventSystem.goto_readers (s : EventSystem) (i j : Nat) (pc : EventPc) :
    (s.goto i pc).readers j = if j = i then pc else s.readers j := by
  simp [goto, Function.update_apply]

@[simp] theorem EventSystem.leave_eventsIrq (s : EventSystem) (i : Nat) (ret : EventReturn) :
    (s.leave i ret).eventsIrq = s.eventsIrq := rfl

@[simp] theorem EventSystem.leave_returns (s : EventSystem) (i : Nat) (ret : EventReturn) :
    (s.leave i ret).returns = s.returns ++ [ret] := rfl

@[simp] theorem EventSystem.leave_readers (s : EventSystem) (i j : Nat) (ret : EventReturn) :
    (s.leave i ret).readers j = if j = i then .idle else s.readers j :=
  goto_readers s i j .idle

@[simp] theorem userIrqService_returns (s : EventSystem) :
    (userIrqService s).returns = s.returns := by
  unfold userIrqService
  split <;> rfl

theorem userIrqService_eventsIrq (s : EventSystem) : (userIrqService s).eventsIrq ≠ 0 := by
  unfold userIrqService
  split
  · intro h
    cases h
  · assumption

/-- Whoever sleeps through the interrupt slept with an event waiting. -/
theorem userIrqService_asleep (hj : (userIrqService s).readers j = .asleep) :
    s.readers j = .asleep ∧ s.eventsIrq ≠ 0 := by
  unfold userIrqService at hj
  split at hj
  · dsimp only at hj
    split at hj
    · cases hj
    · rename_i ha
      exact absurd hj ha
  · rename_i hirq
    exact ⟨hj,hirq⟩

inductive EventStep (s : EventSystem) : EventOp → EventSystem → Prop
  | refuse {i count : Nat} {pos : Int} (hpc : s.readers i = .idle) :
      EventStep s (.call i count pos) (s.leave i ⟨-eProto,none⟩)
  | enter {i : Nat} {pos : Int} (hpc : s.readers i = .idle) :
      EventStep s (.call i 4 pos) (s.goto i .checking)
  | wake {i : Nat} (hpc : s.readers i = .checking) (hirq : s.eventsIrq ≠ 0) :
      EventStep s (.check i) (s.goto i .woken)
  | sleep {i : Nat} (hpc : s.readers i = .checking) (hirq : s.eventsIrq = 0) :
      EventStep s (.check i) (s.goto i .asleep)
  | signal {i : Nat} (hpc : s.readers i = .asleep) :
      EventStep s (.signal i) (s.leave i ⟨-eRestartSys,none⟩)
  | take {i uncopied : Nat} (hpc : s.readers i = .woken) :
      EventStep s (.take i uncopied) ({ s with eventsIrq := 0 }.leave i
        ⟨4,if uncopied = 0 then some (s.eventsIrq.setWidth 32) else none⟩)
  | interrupt : EventStep s .interrupt (userIrqService s)

theorem eventNext_step (hn : eventNext s op = some t) : EventStep s op t := by
  cases op with
  | call i count pos =>
    simp only [eventNext] at hn
    split at hn
    · cases hn
    · rename_i hpc
      have hidle := not_not.mp hpc
      split at hn
      · cases hn
        exact .refuse hidle
      · rename_i hcount
        obtain rfl := not_not.mp hcount
        split at hn
        · cases hn
          exact .refuse hidle
        · cases hn
          exact .enter hidle
  | check i =>
    simp only [eventNext] at hn
    split at hn
    · cases hn
    · rename_i hpc
      split at hn
      · rename_i hirq
        cases hn
        exact .wake (not_not.mp hpc) hirq
      · rename_i hirq
        cases hn
        exact .sleep (not_not.mp hpc) (not_not.mp hirq)
  | signal i =>
    simp only [eventNext] at hn
    split at hn
    · cases hn
    · rename_i hpc
      cases hn
      exact .signal (not_not.mp hpc)
  | take i uncopied =>
    simp only [eventNext] at hn
    split at hn
    · cases hn
    · rename_i hpc
      cases hn
      exact .take (not_not.mp hpc)
  | interrupt =>
    cases hn
    exact .interrupt

theorem EventHistory.next_inv (hn : h.next op = some h') :
    ∃ t, EventStep h.sys op t ∧ h' = h.record t op := by
  obtain ⟨t,ht,rfl⟩ := Option.map_eq_some_iff.mp hn
  exact ⟨t,eventNext_step ht,rfl⟩

@[simp] theorem EventHistory.record_sys (h : EventHistory) (t : EventSystem) (op : EventOp) :
    (h.record t op).sys = t := by
  cases op <;> rfl

/-- How the history stands to the flag: an event waits exactly since an interrupt
that no read has taken, nobody sleeps while it does, and a woken reader finds it
unless overtaken. -/
structure EventHistory.Kept (h : EventHistory) : Prop where
  flag : h.unread = true ↔ h.sys.eventsIrq ≠ 0
  awake : ∀ i, h.sys.readers i = .asleep → h.sys.eventsIrq = 0
  woken : ∀ i, h.sys.readers i = .woken → (h.overtaken i = false ↔ h.sys.eventsIrq ≠ 0)

theorem EventHistory.start_kept : EventHistory.start.Kept where
  flag := by simp [start]
  awake _ h := by cases h
  woken _ h := by cases h

theorem EventHistory.Kept.move (hk : h.Kept) {pc : EventPc} (ha : pc ≠ .asleep) (hw : pc ≠ .woken)
    (hirq : t.eventsIrq = h.sys.eventsIrq)
    (hreaders : ∀ j, t.readers j = if j = i then pc else h.sys.readers j) :
    ({ h with sys := t } : EventHistory).Kept := by
  refine ⟨by simpa [hirq] using hk.flag,fun j hj => ?_,fun j hj => ?_⟩
  · simp only [hreaders] at hj
    split at hj
    · exact absurd hj ha
    · rw [hirq]
      exact hk.awake j hj
  · simp only [hreaders] at hj
    split at hj
    · exact absurd hj hw
    · rw [hirq]
      exact hk.woken j hj

theorem EventHistory.Kept.step (hk : h.Kept) (hs : EventStep h.sys op t) :
    (h.record t op).Kept := by
  cases hs with
  | refuse | signal =>
    exact hk.move (by decide) (by decide) rfl fun j => EventSystem.leave_readers _ _ j _
  | enter =>
    exact hk.move (by decide) (by decide) rfl fun j => EventSystem.goto_readers _ _ j _
  | @wake i _ hirq =>
    refine ⟨hk.flag,fun j hj => ?_,fun j hj => ?_⟩
    · simp only [record, EventSystem.goto_readers] at hj
      split at hj
      · cases hj
      · exact hk.awake j hj
    · simp only [record, EventSystem.goto_readers] at hj
      by_cases hji : j = i
      · subst hji
        simpa [record] using hirq
      · rw [if_neg hji] at hj
        simpa [record, hji] using hk.woken j hj
  | @sleep i _ hirq =>
    refine ⟨hk.flag,fun j hj => hirq,fun j hj => ?_⟩
    simp only [record, EventSystem.goto_readers] at hj
    by_cases hji : j = i
    · rw [if_pos hji] at hj
      cases hj
    · rw [if_neg hji] at hj
      simpa [record, hji] using hk.woken j hj
  | take =>
    refine ⟨by simp [record],fun _ _ => rfl,fun _ _ => by simp [record]⟩
  | interrupt =>
    have hirq := userIrqService_eventsIrq h.sys
    refine ⟨by simpa [record] using hirq,fun j hj => ?_,fun j _ => by simpa [record] using hirq⟩
    obtain ⟨hasleep,hset⟩ := userIrqService_asleep hj
    exact absurd (hk.awake j hasleep) hset

def EventSystem.AllTell (s : EventSystem) : Prop := ∀ ret ∈ s.returns, ret.rc = 4 → ret.Tells

theorem allTell_append {l : List EventReturn} {ret : EventReturn} (hs : s.returns = l ++ [ret]) :
    s.AllTell ↔ (∀ r ∈ l, r.rc = 4 → r.Tells) ∧ (ret.rc = 4 → ret.Tells) := by
  simp [EventSystem.AllTell, hs, or_imp, forall_and]

theorem take_tells (hk : h.Kept) (hpc : h.sys.readers i = .woken) (uncopied : Nat) :
    EventReturn.Tells ⟨4,if uncopied = 0 then some (h.sys.eventsIrq.setWidth 32) else none⟩ ↔
      takesItsOwn h (.take i uncopied) := by
  have hword : (h.sys.eventsIrq.setWidth 32 : U32) ≠ 0 ↔ h.sys.eventsIrq ≠ 0 := by
    rw [not_iff_not, ← BitVec.toNat_inj, ← BitVec.toNat_inj]
    simp only [BitVec.toNat_setWidth, BitVec.ofNat_eq_ofNat, BitVec.toNat_ofNat]
    have := h.sys.eventsIrq.isLt
    omega
  simp only [takesItsOwn, hk.woken i hpc, ← hword]
  by_cases hu : uncopied = 0
  · simp [EventReturn.Tells, hu]
  · simp [EventReturn.Tells, hu]

theorem allTell_step (hk : h.Kept) (hs : EventStep h.sys op t) :
    t.AllTell ↔ h.sys.AllTell ∧ takesItsOwn h op := by
  cases hs with
  | refuse | signal =>
    rw [allTell_append (EventSystem.leave_returns ..)]
    simp [EventSystem.AllTell, takesItsOwn, eProto, eRestartSys]
  | enter | wake | sleep => simp [EventSystem.AllTell, takesItsOwn]
  | @take i uncopied hpc =>
    rw [allTell_append (EventSystem.leave_returns ..), ← take_tells hk hpc]
    simp [EventSystem.AllTell]
  | interrupt => simp [EventSystem.AllTell, takesItsOwn]

/-- While every read tells of an event, no more have returned than there were
interrupts, and one less if an event waits. -/
def EventHistory.Room (h : EventHistory) : Prop :=
  h.sys.AllTell → h.sys.served.length+h.unread.toNat ≤ h.interrupts

theorem EventHistory.Room.step (hr : h.Room) (hk : h.Kept) (hs : EventStep h.sys op t) :
    (h.record t op).Room := by
  intro hall
  rw [record_sys] at hall ⊢
  obtain ⟨hold,hok⟩ := (allTell_step hk hs).mp hall
  have hroom := hr hold
  cases hs with
  | refuse | signal => simpa [EventSystem.served, record, eProto, eRestartSys] using hroom
  | enter | wake | sleep => simpa [EventSystem.served, record] using hroom
  | take hpc =>
    have hset := hk.flag.mpr ((hk.woken _ hpc).mp hok.1)
    simpa [EventSystem.served, record, hset] using hroom
  | interrupt =>
    have hsame : (userIrqService h.sys).served = h.sys.served := by simp [EventSystem.served]
    rw [hsame]
    exact Nat.succ_le_succ (Nat.le_trans (Nat.le_add_right ..) hroom)

theorem EventHistory.right_iff (hr : h.Room) (hk : h.Kept) : h.Right ↔ h.sys.AllTell := by
  refine ⟨fun hright => hright.tells,fun hall => ⟨hall,?_,hk.flag.mp⟩⟩
  exact Nat.le_trans (Nat.le_add_right ..) (hr hall)

end step

section runs

variable {ops : List EventOp} {h : EventHistory}

theorem EventHistory.start_room : EventHistory.start.Room := fun _ => Nat.le_refl 0

theorem EventHistory.next_keeps {h h' : EventHistory} {op : EventOp} (hi : h.Kept ∧ h.Room)
    (hn : h.next op = some h') :
    (h'.Kept ∧ h'.Room) ∧ (h.Right → (h'.Right ↔ takesItsOwn h op)) := by
  obtain ⟨hk,hr⟩ := hi
  obtain ⟨t,hs,rfl⟩ := next_inv hn
  have hk' := hk.step hs
  have hr' := hr.step hk hs
  refine ⟨⟨hk',hr'⟩,fun hright => ?_⟩
  rw [right_iff hr' hk', record_sys, allTell_step hk hs]
  exact and_iff_right hright.tells

/-- Nobody sleeps while an event waits, and `poll` tells of it exactly since an
interrupt that no read has taken. -/
theorem run_eventWaits (r : Run (stepOf EventHistory.next) anyStep .start ops h) :
    (∀ i, h.sys.readers i = .asleep → h.unread = false) ∧
      (charEventsPoll h.sys = 0x41 ↔ h.unread = true) := by
  have hk : h.Kept := (r.invariant (fun h => h.Kept ∧ h.Room)
    ⟨EventHistory.start_kept,EventHistory.start_room⟩
    fun _ _ _ hi _ hn => (EventHistory.next_keeps hi hn).1).1
  refine ⟨fun i hi => ?_,?_⟩
  · rw [← Bool.not_eq_true, hk.flag]
    exact not_not.mpr (hk.awake i hi)
  · rw [hk.flag, charEventsPoll]
    split
    · rename_i hset
      exact iff_of_true rfl hset
    · rename_i hset
      exact iff_of_false (by decide) hset

/-- The reads and interrupts of a run are right in every state exactly if each read
takes the event it was woken for, or a later one, and its word can be copied. -/
theorem run_eventsRight (r : Run (stepOf EventHistory.next) anyStep .start ops h) :
    (∀ before t, before <+: ops → Run (stepOf EventHistory.next) anyStep .start before t →
      t.Right) ↔ Run (stepOf EventHistory.next) takesItsOwn .start ops h :=
  (r.always_iff (fun h => h.Kept ∧ h.Room) EventHistory.Right
    ⟨EventHistory.start_kept,EventHistory.start_room⟩
    ((EventHistory.right_iff EventHistory.start_room EventHistory.start_kept).mpr
      (by simp [EventSystem.AllTell, EventHistory.start]))
    fun _ _ _ hi hn => EventHistory.next_keeps hi hn).2

def oneEvent : List EventOp := [.call 0 4 0,.check 0,.interrupt,.check 0,.take 0 0]

theorem run_eventsRight_one :
    Run (stepOf EventHistory.next) takesItsOwn .start oneEvent
        (replay EventHistory.next .start oneEvent) ∧
      ∀ before t, before <+: oneEvent → Run (stepOf EventHistory.next) anyStep .start before t →
        t.Right := by
  have hown : Run (stepOf EventHistory.next) takesItsOwn .start oneEvent
      (replay EventHistory.next .start oneEvent) :=
    (replay_ends (p := fun _ => true) (by decide)).1
  exact ⟨hown,(run_eventsRight (replay_run (by decide))).mpr hown⟩

def sharedEvent : List EventOp :=
  [.call 0 4 0,.call 1 4 0,.check 0,.check 1,.interrupt,.check 0,.check 1,.take 0 0,.take 1 0]

/-- Both return 4, the second with the word 0. -/
theorem sharedEvent_not : ∃ h, Run (stepOf EventHistory.next) anyStep .start sharedEvent h ∧
    (⟨4,some 0⟩ : EventReturn) ∈ h.sys.returns ∧ h.interrupts < h.sys.served.length ∧ ¬ h.Right := by
  refine ⟨_,replay_run (by decide),by decide,by decide,fun hright => ?_⟩
  have hcount := hright.counted
  revert hcount
  decide

end runs

end DmaCamera
