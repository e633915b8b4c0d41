import DmaCamera.Cyclic
import DmaCamera.Library.Runs
set_option autoImplicit false

namespace DmaCamera
open Runs

/-! An engine with an MSI-X vector: the messages it posts, the handler, and the
work item the handler schedules. -/

/-- Where the work item of the engine is: its last write takes a value it has
read before. -/
inductive WorkPc where
  | idle
  | serviced
  | enabling (value : U32)
  deriving DecidableEq, Repr

structure IrqSystem where
  driver : Driver
  /-- Messages the device has posted that are not delivered yet. -/
  inFlight : Nat
  /-- The handler has saved the mask and not cleared it yet. -/
  handling : Bool
  /-- The work item is queued. -/
  pending : Bool
  work : WorkPc

inductive IrqOp where
  | post
  | deliver
  | clear
  | service (o : Observed)
  | reread
  | enable
  | queue (t : TransferId)

def IrqSystem.mask (s : IrqSystem) : U32 := s.driver.engine.regs.interruptEnableMask

def IrqSystem.saved (s : IrqSystem) : U32 := s.driver.engine.interruptEnableMaskValue

def Engine.withMask (e : Engine) (mask : U32) : Engine :=
  { e with regs := { e.regs with interruptEnableMask := mask } }

def channelIrqSave (e : Engine) : Engine :=
  { e with interruptEnableMaskValue := e.regs.interruptEnableMask }

def channelIrqClear (e : Engine) : Engine :=
  e.withMask (e.regs.interruptEnableMask &&& ~~~e.interruptEnableMaskValue)

def engineWorkEnable (e : Engine) (value : U32) : Engine :=
  e.withMask (e.regs.interruptEnableMask ||| value)

/-- The handler takes no lock, and can run between any two accesses of the work
item; another call of the handler for the same vector waits for it. -/
def irqNext (p : Params) (s : IrqSystem) : IrqOp → Option IrqSystem
  | .post => if s.mask = 0 then none else some { s with inFlight := s.inFlight+1 }
  | .deliver =>
    if 0 < s.inFlight ∧ s.handling = false then some { s with
      driver := { s.driver with engine := channelIrqSave s.driver.engine }
      inFlight := s.inFlight-1
      handling := true }
    else none
  | .clear =>
    if s.handling then some { s with
      driver := { s.driver with engine := channelIrqClear s.driver.engine }
      handling := false
      pending := true }
    else none
  | .service o =>
    if s.pending = true ∧ s.work = .idle then
      match engineServiceLocked p s.driver 0 o with
      | .ok (some (d,_)) => some { s with driver := d, pending := false, work := .serviced }
      | _ => none
    else none
  | .reread => if s.work = .serviced then some { s with work := .enabling s.saved } else none
  | .enable => match s.work with
    | .enabling value => some { s with
      driver := { s.driver with engine := engineWorkEnable s.driver.engine value }
      work := .idle }
    | _ => none
  -- the lock of the engine is held while its work item runs
  | .queue t =>
    if s.work = .idle then
      match transferQueue p s.driver t with
      | .ok (d,_) => some { s with driver := d }
      | .error _ => none
    else none

structure IrqSystem.Quiescent (s : IrqSystem) : Prop where
  inFlight : s.inFlight = 0
  handling : s.handling = false
  pending : s.pending = false
  work : s.work = .idle

def IrqSystem.configured (p : Params) (s : IrqSystem) : U32 :=
  configuredMask p s.driver.engine.streaming s.driver.engine.dirToDev

theorem configuredMask_ne_zero (p : Params) (streaming dirToDev : Bool) :
    configuredMask p streaming dirToDev ≠ 0 := by
  unfold configuredMask
  cases p.pollMode <;> cases streaming <;> cases dirToDev <;> decide

structure IrqSystem.Created (p : Params) (s : IrqSystem) : Prop where
  mask : s.mask = s.configured p
  saved : s.saved = 0
  noPerf : s.driver.engine.xdmaPerf = none
  quiescent : s.Quiescent

def IrqSystem.ofDriver (d : Driver) : IrqSystem := ⟨d,0,false,false,.idle⟩

theorem created_engineCreate (p : Params) (control : U32) (streaming dirToDev : Bool)
    (transfers : TransferId → XdmaTransfer) :
    (IrqSystem.ofDriver (.withEngine (engineCreate p control streaming dirToDev) transfers)).Created
      p :=
  ⟨rfl,rfl,rfl,rfl,rfl,rfl,rfl⟩

/-! What a step does to the mask and its copies, with the engine left out. -/

structure MaskView where
  mask : U32
  saved : U32
  pending : Bool
  work : WorkPc

def IrqSystem.view (s : IrqSystem) : MaskView := ⟨s.mask,s.saved,s.pending,s.work⟩

def MaskView.next (v : MaskView) : IrqOp → MaskView
  | .post | .queue _ => v
  | .deliver => { v with saved := v.mask }
  | .clear => { v with mask := v.mask &&& ~~~v.saved, pending := true }
  | .service _ => { v with pending := false, work := .serviced }
  | .reread => { v with work := .enabling v.saved }
  | .enable => match v.work with
    | .enabling value => { v with mask := v.mask ||| value, work := .idle }
    | _ => v

def MaskView.allows (v : MaskView) : IrqOp → Prop
  | .service _ => v.work = .idle
  | .reread => v.work = .serviced
  | .enable => ∃ value, v.work = .enabling value
  | _ => True

theorem irqNext_view {p : Params} {s s' : IrqSystem} {op : IrqOp}
    (hp : s.driver.engine.xdmaPerf = none) (h : stepOf (irqNext p) s op s') :
    s'.driver.engine.xdmaPerf = none ∧ s'.view = s.view.next op ∧ s.view.allows op := by
  cases op with
  | post =>
    simp only [stepOf, irqNext, Option.ite_none_left_eq_some, Option.some.injEq] at h
    obtain ⟨_,rfl⟩ := h
    exact ⟨hp,rfl,trivial⟩
  | deliver =>
    simp only [stepOf, irqNext, Option.ite_none_right_eq_some, Option.some.injEq] at h
    obtain ⟨_,rfl⟩ := h
    exact ⟨hp,rfl,trivial⟩
  | clear =>
    simp only [stepOf, irqNext, Option.ite_none_right_eq_some, Option.some.injEq] at h
    obtain ⟨_,rfl⟩ := h
    exact ⟨hp,rfl,trivial⟩
  | service o =>
    simp only [stepOf, irqNext, Option.ite_none_right_eq_some] at h
    obtain ⟨⟨_,hw⟩,h⟩ := h
    split at h
    · rename_i d rc hcall
      cases h
      obtain ⟨hp',hm,hs⟩ := engineServiceLocked_interrupts hcall hp
      refine ⟨hp',?_,hw⟩
      simp only [IrqSystem.view, IrqSystem.mask, IrqSystem.saved, hm, hs, MaskView.next]
    · cases h
  | reread =>
    simp only [stepOf, irqNext, Option.ite_none_right_eq_some, Option.some.injEq] at h
    obtain ⟨hw,rfl⟩ := h
    exact ⟨hp,rfl,hw⟩
  | enable =>
    simp only [stepOf, irqNext] at h
    split at h
    · rename_i value hw
      cases h
      refine ⟨hp,?_,value,hw⟩
      simp only [MaskView.next, IrqSystem.view, hw]
      rfl
    · cases h
  | queue t =>
    simp only [stepOf, irqNext, Option.ite_none_right_eq_some] at h
    obtain ⟨_,h⟩ := h
    split at h
    · rename_i d rc hcall
      cases h
      obtain ⟨hp',hm,hs⟩ := transferQueue_interrupts hcall hp
      refine ⟨hp',?_,trivial⟩
      simp only [IrqSystem.view, IrqSystem.mask, IrqSystem.saved, hm, hs, MaskView.next]
    · cases h

structure MaskView.Armed (m : U32) (v : MaskView) : Prop where
  mask : v.mask = 0 ∨ v.mask = m
  saved : v.saved = 0 ∨ v.saved = m
  reread : ∀ value, v.work = .enabling value → value = 0 ∨ value = m
  kept : v.mask = m ∨ v.work = .enabling m ∨
    (v.saved = m ∧ (v.pending = true ∨ v.work = .serviced))

structure MaskView.Disarmed (v : MaskView) : Prop where
  mask : v.mask = 0
  saved : v.saved = 0
  reread : ∀ value, v.work = .enabling value → value = 0

/-- A message is delivered with the mask set, or once the work item has read
back a mask that was set. -/
def MaskView.findsMask (v : MaskView) : IrqOp → Prop
  | .deliver => v.mask ≠ 0 ∨ ∃ value, value ≠ 0 ∧ v.work = .enabling value
  | _ => True

theorem clear_nothing (mask : U32) : mask &&& ~~~0 = mask := by
  have h : ~~~(0 : U32) = BitVec.allOnes 32 := by decide
  rw [h, BitVec.and_allOnes]

theorem MaskView.Armed.next {m : U32} {v : MaskView} {op : IrqOp} (h : v.Armed m)
    (hok : v.findsMask op) (hallow : v.allows op) : (v.next op).Armed m := by
  obtain ⟨mask,saved,pending,work⟩ := v
  obtain ⟨hm,hs,hr,hk⟩ := h
  simp only at hm hs hr hk
  cases op with
  | post => exact ⟨hm,hs,hr,hk⟩
  | queue t => exact ⟨hm,hs,hr,hk⟩
  | deliver =>
    refine ⟨hm,hm,hr,?_⟩
    rcases hok with hok | ⟨value,hv,hw⟩
    · exact Or.inl (hm.resolve_left hok)
    · have hvm := (hr value hw).resolve_left hv
      exact Or.inr (Or.inl (hvm ▸ hw))
  | clear =>
    rcases hs with rfl | rfl
    · refine ⟨by simpa only [MaskView.next, clear_nothing] using hm,Or.inl rfl,hr,?_⟩
      rcases hk with hk | hk | ⟨hk,_⟩
      · exact Or.inl ((clear_nothing mask).trans hk)
      · exact Or.inr (Or.inl hk)
      · exact Or.inr (Or.inr ⟨hk,Or.inl rfl⟩)
    · refine ⟨Or.inl ?_,Or.inr rfl,hr,Or.inr (Or.inr ⟨rfl,Or.inl rfl⟩)⟩
      rcases hm with rfl | rfl <;> simp [MaskView.next]
  | service o =>
    obtain rfl : work = .idle := hallow
    refine ⟨hm,hs,by simp [MaskView.next],?_⟩
    rcases hk with hk | hk | ⟨hk,_⟩
    · exact Or.inl hk
    · cases hk
    · exact Or.inr (Or.inr ⟨hk,Or.inr rfl⟩)
  | reread =>
    obtain rfl : work = .serviced := hallow
    refine ⟨hm,hs,?_,?_⟩
    · rintro value ⟨⟩
      exact hs
    · rcases hk with hk | hk | ⟨hk,_⟩
      · exact Or.inl hk
      · cases hk
      · exact Or.inr (Or.inl (congrArg WorkPc.enabling hk))
  | enable =>
    obtain ⟨value,rfl⟩ : ∃ value, work = .enabling value := hallow
    have hv := hr value rfl
    refine ⟨?_,hs,by simp [MaskView.next],?_⟩
    · rcases hm with rfl | rfl <;> rcases hv with rfl | rfl <;> simp [MaskView.next]
    · rcases hk with rfl | hk | ⟨hk,hk'⟩
      · refine Or.inl ?_
        rcases hv with rfl | rfl <;> simp [MaskView.next]
      · cases hk
        refine Or.inl ?_
        rcases hm with rfl | rfl <;> simp [MaskView.next]
      · simp only [reduceCtorEq, or_false] at hk'
        exact Or.inr (Or.inr ⟨hk,Or.inl hk'⟩)

/-- Any other delivery saves a cleared mask over the last copy. -/
theorem MaskView.lost {v : MaskView} {op : IrqOp} (hbad : ¬ v.findsMask op) :
    (v.next op).Disarmed := by
  cases op with
  | deliver =>
    simp only [MaskView.findsMask, not_or, not_not, not_exists, not_and] at hbad
    refine ⟨hbad.1,hbad.1,fun value hw => ?_⟩
    by_contra hv
    exact hbad.2 value hv hw
  | _ => exact absurd trivial hbad

theorem MaskView.Disarmed.next {v : MaskView} (op : IrqOp) (h : v.Disarmed) :
    (v.next op).Disarmed := by
  obtain ⟨mask,saved,pending,work⟩ := v
  obtain ⟨hm,hs,hr⟩ := h
  cases op with
  | reread => exact ⟨hm,hs,by rintro value ⟨⟩; exact hs⟩
  | enable =>
    cases work with
    | enabling value =>
      obtain rfl : value = 0 := hr value rfl
      exact ⟨by simpa [MaskView.next] using hm,hs,by simp [MaskView.next]⟩
    | _ => exact ⟨hm,hs,hr⟩
  | clear =>
    obtain rfl : mask = 0 := hm
    exact ⟨BitVec.zero_and,hs,hr⟩
  | service o => exact ⟨hm,hs,by simp [MaskView.next]⟩
  | deliver => exact ⟨hm,hm,hr⟩
  | _ => exact ⟨hm,hs,hr⟩

def findsMask (s : IrqSystem) (op : IrqOp) : Prop := s.view.findsMask op

theorem IrqSystem.Created.armed {p : Params} {s : IrqSystem} (h : s.Created p) :
    s.view.Armed (s.configured p) :=
  ⟨Or.inr h.mask,Or.inl h.saved,by simp [view, h.quiescent.work],Or.inl h.mask⟩

theorem run_armed_or {p : Params} {s₀ s : IrqSystem} {ops : List IrqOp} (h₀ : s₀.Created p)
    (r : Run (stepOf (irqNext p)) anyStep s₀ ops s) : s.driver.engine.xdmaPerf = none ∧
      ((Run (stepOf (irqNext p)) findsMask s₀ ops s ∧ s.view.Armed (s₀.configured p)) ∨
        s.view.Disarmed) := by
  induction r with
  | nil => exact ⟨h₀.noPerf,Or.inl ⟨.nil,h₀.armed⟩⟩
  | @snoc ops op s t _ _ hstep ih =>
    obtain ⟨hp,ih⟩ := ih
    obtain ⟨hp',hview,hallow⟩ := irqNext_view hp hstep
    refine ⟨hp',?_⟩
    rw [hview]
    rcases ih with ⟨hrun,harmed⟩ | hlost
    · by_cases hok : findsMask s op
      · exact Or.inl ⟨hrun.snoc hok hstep,harmed.next hok hallow⟩
      · exact Or.inr (MaskView.lost hok)
    · exact Or.inr (hlost.next op)

theorem run_armed {p : Params} {s₀ s : IrqSystem} {ops : List IrqOp} (h₀ : s₀.Created p)
    (r : Run (stepOf (irqNext p)) findsMask s₀ ops s) : s.view.Armed (s₀.configured p) := by
  have hinv : s.driver.engine.xdmaPerf = none ∧ s.view.Armed (s₀.configured p) := by
    refine r.invariant (fun s => s.driver.engine.xdmaPerf = none ∧ s.view.Armed (s₀.configured p))
      ⟨h₀.noPerf,h₀.armed⟩ ?_
    rintro s op t ⟨hp,h⟩ hok hstep
    obtain ⟨hp',hview,hallow⟩ := irqNext_view hp hstep
    exact ⟨hp',hview ▸ h.next hok hallow⟩
  exact hinv.2

theorem IrqSystem.Quiescent.mask_eq {s : IrqSystem} {m : U32} (hq : s.Quiescent)
    (h : s.view.Armed m) : s.mask = m := by
  rcases h.kept with hk | hk | ⟨_,hk | hk⟩
  · exact hk
  · cases hq.work.symm.trans hk
  · cases hq.pending.symm.trans hk
  · cases hq.work.symm.trans hk

/-- Once nothing is outstanding the mask is back exactly if every message found it. -/
theorem run_findsMask {p : Params} {s₀ s : IrqSystem} {ops : List IrqOp} (h₀ : s₀.Created p)
    (r : Run (stepOf (irqNext p)) anyStep s₀ ops s) (hq : s.Quiescent) :
    s.mask = s₀.configured p ↔ Run (stepOf (irqNext p)) findsMask s₀ ops s := by
  refine ⟨fun hmask => ?_,fun hrun => hq.mask_eq (run_armed h₀ hrun)⟩
  rcases (run_armed_or h₀ r).2 with ⟨hrun,_⟩ | hlost
  · exact hrun
  · exact absurd (hmask.symm.trans hlost.mask) (configuredMask_ne_zero _ _ _)

def IrqSystem.quiet : IrqSystem :=
  .ofDriver (.withEngine (engineCreate ⟨false,false⟩ 0 false false) fun _ =>
    { XdmaTransfer.zero with descNum := 1 })

def messages (n : Nat) : List IrqOp :=
  .queue 0 :: List.replicate n .post ++ (List.replicate n [.deliver,.clear]).flatten ++
    [.service ⟨⟨xdmaStatDescStopped ||| xdmaStatDescCompleted,1⟩,[]⟩,.reread,.enable]

theorem run_findsMask_one :
    (replay (irqNext ⟨false,false⟩) .quiet (messages 1)).mask =
        IrqSystem.configured ⟨false,false⟩ .quiet ∧
      Run (stepOf (irqNext ⟨false,false⟩)) findsMask .quiet (messages 1)
        (replay (irqNext ⟨false,false⟩) .quiet (messages 1)) := by
  have hmask : (replay (irqNext ⟨false,false⟩) .quiet (messages 1)).mask =
      IrqSystem.configured ⟨false,false⟩ .quiet := by decide
  exact ⟨hmask,(run_findsMask (created_engineCreate _ _ _ _ _) (replay_run (by decide))
    ⟨by decide,by decide,by decide,by decide⟩).mp hmask⟩

/-- The second of two messages finds the mask the first has cleared. -/
theorem messages_two_lost : ¬ ∀ (p : Params) (s₀ s : IrqSystem) (ops : List IrqOp),
    s₀.Created p → Run (stepOf (irqNext p)) anyStep s₀ ops s → s.Quiescent →
      s.mask = s₀.configured p := by
  intro hall
  have hrun : Run (stepOf (irqNext ⟨false,false⟩)) anyStep .quiet (messages 2)
      (replay (irqNext ⟨false,false⟩) .quiet (messages 2)) := replay_run (by decide)
  have hmask := hall _ _ _ _ (created_engineCreate _ _ _ _ _) hrun
    ⟨by decide,by decide,by decide,by decide⟩
  revert hmask
  decide

end DmaCamera
