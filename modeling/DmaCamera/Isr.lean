import DmaCamera.ProbeTable
import DmaCamera.Library.Runs
import Mathlib.Algebra.Order.BigOperators.Group.List
import Mathlib.Tactic.IntervalCases
set_option autoImplicit false

namespace DmaCamera
open Runs Probe

/-! All engines on one interrupt: the handler that finds out which of them it was,
and the work items it schedules. -/

def xdmaEngIrqNum : Nat := 1

/-- `irq_bitmask` of the engine that is created when there are `enginesNum` others. -/
def irqBitmask (enginesNum : Nat) : U32 :=
  ((1 <<< xdmaEngIrqNum)-1) <<< (enginesNum*xdmaEngIrqNum)

/-- The engines that were found, by the count of those before them. -/
structure IrqLines where
  engine : EngineSlot → Option Nat
  small : ∀ e n, engine e = some n → n < 8
  apart : ∀ e f n, engine e = some n → engine f = some n → e = f

inductive ServicePc where
  | idle
  | begun
  | serviced
  deriving DecidableEq, Repr

def ServicePc.running : ServicePc → Bool
  | .idle => false
  | .begun | .serviced => true

def ServicePc.over : ServicePc → Bool
  | .serviced => true
  | .idle | .begun => false

def ServicePc.toGo : ServicePc → Nat
  | .idle => 0
  | .begun => 2
  | .serviced => 1

/-- The work item of an engine: queued or not, and how far `engine_service_work` is. -/
structure ServiceWork where
  pending : Bool
  pc : ServicePc
  deriving DecidableEq, Repr

/-- Where `xdma_isr` is, with what it has read of `channel_int_request`. -/
inductive IsrPc where
  | idle
  | read (chIrq : U32)
  | disabled (chIrq : U32)
  | scheduling (chIrq : U32) (rest : List EngineSlot)
  deriving DecidableEq, Repr

structure IsrSystem where
  /-- The engines that have something to report. -/
  source : U32
  channelIntEnable : U32
  eventsIrq : Nat → Bool
  irqCount : Nat
  isr : IsrPc
  work : EngineSlot → ServiceWork

inductive IsrOp where
  | raise (e : EngineSlot)
  | read
  | disable
  | user (userIrq : U32)
  | schedule
  | work (e : EngineSlot)

def isrSlots : List EngineSlot :=
  (List.finRange 4).map (⟨·,false⟩) ++ (List.finRange 4).map (⟨·,true⟩)

namespace IrqLines

variable (lro : IrqLines)

def fired (chIrq : U32) (e : EngineSlot) : Bool :=
  ((lro.engine e).map fun n => irqBitmask n &&& chIrq != 0).getD false

def bitmask (e : EngineSlot) : U32 := ((lro.engine e).map irqBitmask).getD 0

end IrqLines

def IsrSystem.channelIntRequest (s : IsrSystem) : U32 := s.source &&& s.channelIntEnable

def userIrqServices (userIrq : U32) (eventsIrq : Nat → Bool) (i : Nat) : Bool :=
  eventsIrq i || (decide (i < maxUserIrq) && userIrq &&& (1 <<< i) != 0)

def IsrSystem.setWork (s : IsrSystem) (e : EngineSlot) (w : ServiceWork) : IsrSystem :=
  { s with work := Function.update s.work e w }

/-- The next access of `engine_service_work` to what it shares: `engine_service`
reads and so clears the status, behind it the interrupt is enabled again. -/
def workNext (lro : IrqLines) (s : IsrSystem) (e : EngineSlot) : Option IsrSystem :=
  match (s.work e).pc with
  | .idle => if (s.work e).pending then some (s.setWork e ⟨false,.begun⟩) else none
  | .begun => some { s.setWork e ⟨(s.work e).pending,.serviced⟩ with
      source := s.source &&& ~~~lro.bitmask e }
  | .serviced => some { s.setWork e ⟨(s.work e).pending,.idle⟩ with
      channelIntEnable := s.channelIntEnable ||| lro.bitmask e }

/-- The handler is not entered again before it has returned; the work items run
at any time, each of them once at a time. -/
def isrNext (lro : IrqLines) (s : IsrSystem) : IsrOp → Option IsrSystem
  | .raise e => some { s with source := s.source ||| lro.bitmask e }
  | .read => match s.isr with
    | .idle => some { s with isr := .read s.channelIntRequest }
    | _ => none
  | .disable => match s.isr with
    | .read chIrq => some { s with
        channelIntEnable := s.channelIntEnable &&& ~~~chIrq
        isr := .disabled chIrq }
    | _ => none
  | .user userIrq => match s.isr with
    | .disabled chIrq => some { s with
        eventsIrq := userIrqServices userIrq s.eventsIrq
        isr := .scheduling chIrq isrSlots }
    | _ => none
  | .schedule => match s.isr with
    | .scheduling _ [] => some { s with isr := .idle, irqCount := s.irqCount+1 }
    | .scheduling chIrq (e :: rest) =>
      let s := { s with isr := .scheduling chIrq rest }
      -- `schedule_work` leaves alone what is queued already
      some (if lro.fired chIrq e then s.setWork e ⟨true,(s.work e).pc⟩ else s)
    | _ => none
  | .work e => workNext lro s e

theorem irqBitmask_eq {n : Nat} (h : n < 8) : irqBitmask n = BitVec.twoPow 32 n := by
  interval_cases n <;> rfl

theorem irqBitmask_and {n : Nat} (h : n < 8) (w : U32) :
    (irqBitmask n &&& w != 0) = w.getLsbD n := by
  have htwo : BitVec.twoPow 32 n ≠ 0#32 := by
    interval_cases n <;> decide
  rw [irqBitmask_eq h, BitVec.and_comm, BitVec.and_twoPow]
  cases w.getLsbD n with
  | true => simp [htwo]
  | false => simp

theorem irqBitmask_getLsbD {m n : Nat} (hm : m < 8) :
    (irqBitmask m).getLsbD n = decide (m = n) := by
  rw [irqBitmask_eq hm, BitVec.getLsbD_twoPow]
  have h32 : m < 32 := by omega
  simp [h32]

/-- What a step can do to the part of an engine in it all: whether it has
something to report, whether its interrupt is enabled, whether the handler has
seen it fire, whether it has it masked and has yet to schedule the work, and the
work. -/
structure LineView where
  source : Bool
  enabled : Bool
  seen : Bool
  claimed : Bool
  pending : Bool
  pc : ServicePc
  deriving DecidableEq, Repr

inductive LineOp where
  | keep
  | raise
  | read
  | disable
  | schedule
  | begin
  | service
  | enable
  deriving DecidableEq, Repr

def LineOp.effort : LineOp → Nat
  | .keep | .raise | .read | .disable => 0
  | .schedule | .begin | .service | .enable => 1

namespace LineView

def next (v : LineView) : LineOp → LineView
  | .keep => v
  | .raise => { v with source := true }
  | .read => { v with seen := v.source && v.enabled }
  | .disable => { v with enabled := v.enabled && !v.seen, claimed := v.seen, seen := false }
  | .schedule => { v with claimed := false, pending := true }
  | .begin => { v with pending := false, pc := .begun }
  | .service => { v with source := false, pc := .serviced }
  | .enable => { v with enabled := true, pc := .idle }

def allows (v : LineView) : LineOp → Prop
  | .keep | .raise => True
  | .read => v.seen = false
  | .disable => v.claimed = false
  | .schedule => v.claimed = true
  | .begin => v.pending = true ∧ v.pc = .idle
  | .service => v.pc = .begun
  | .enable => v.pc = .serviced

def due (v : LineView) : Nat := v.claimed.toNat+v.pending.toNat+v.pc.running.toNat

/-- Enabled or its work due once, never both and never neither. -/
structure Attended (v : LineView) : Prop where
  once : v.enabled.toNat+v.due = 1
  seen : v.seen = true → v.source = true ∧ v.enabled = true

/-- What is left to be done for an engine; a source behind a mask counts when its
own service is over. -/
def outstanding (v : LineView) : Nat :=
  30*(v.source && !v.seen && (v.enabled || v.pc.over)).toNat+5*v.seen.toNat+
    4*v.claimed.toNat+3*v.pending.toNat+v.pc.toGo

theorem Attended.idle {v : LineView} (h : v.Attended) (he : v.enabled = true) :
    v.claimed = false ∧ v.pending = false ∧ v.pc = .idle := by
  have honce := h.once
  simp only [he, due, Bool.toNat_true] at honce
  refine ⟨?_,?_,?_⟩
  · cases hc : v.claimed with
    | false => rfl
    | true => rw [hc, Bool.toNat_true] at honce; omega
  · cases hp : v.pending with
    | false => rfl
    | true => rw [hp, Bool.toNat_true] at honce; omega
  · cases hpc : v.pc with
    | idle => rfl
    | begun => rw [hpc, ServicePc.running, Bool.toNat_true] at honce; omega
    | serviced => rw [hpc, ServicePc.running, Bool.toNat_true] at honce; omega

theorem Attended.masked {v : LineView} (h : v.Attended) (hd : v.due ≠ 0) :
    v.enabled = false ∧ v.seen = false := by
  have honce := h.once
  have he : v.enabled = false := by
    cases he : v.enabled with
    | false => rfl
    | true => rw [he, Bool.toNat_true] at honce; omega
  refine ⟨he,?_⟩
  cases hs : v.seen with
  | false => rfl
  | true => rw [(h.seen hs).2] at he; cases he

theorem Attended.unqueued {v : LineView} (h : v.Attended) (hc : v.claimed = true) :
    v.pending = false ∧ v.pc = .idle := by
  have honce := h.once
  simp only [hc, due, Bool.toNat_true] at honce
  refine ⟨?_,?_⟩
  · cases hp : v.pending with
    | false => rfl
    | true => rw [hp, Bool.toNat_true] at honce; omega
  · cases hpc : v.pc with
    | idle => rfl
    | begun => rw [hpc, ServicePc.running, Bool.toNat_true] at honce; omega
    | serviced => rw [hpc, ServicePc.running, Bool.toNat_true] at honce; omega

theorem Attended.step {v : LineView} {op : LineOp} (h : v.Attended) (hok : v.allows op) :
    (v.next op).Attended := by
  have honce := h.once
  cases op with
  | keep => exact h
  | raise => exact ⟨honce,fun hs => ⟨rfl,(h.seen hs).2⟩⟩
  | read => exact ⟨honce,fun hs => Bool.and_eq_true_iff.mp hs⟩
  | disable =>
    -- what has fired was enabled until now, so that its work was not due
    cases hseen : v.seen with
    | true =>
      obtain ⟨_,hp,hpc⟩ := h.idle (h.seen hseen).2
      refine ⟨?_,fun hs => by cases hs⟩
      simp [next, due, hseen, hp, hpc, ServicePc.running]
    | false =>
      have hc : v.claimed = false := hok
      refine ⟨?_,fun hs => by cases hs⟩
      simpa [next, due, hseen, hc] using honce
  | schedule =>
    have hc : v.claimed = true := hok
    obtain ⟨hp,_⟩ := h.unqueued hc
    refine ⟨?_,h.seen⟩
    simpa [next, due, hc, hp] using honce
  | begin =>
    obtain ⟨hp,hpc⟩ := hok
    refine ⟨?_,h.seen⟩
    simpa [next, due, hp, hpc, ServicePc.running] using honce
  | service =>
    have hpc : v.pc = .begun := hok
    obtain ⟨_,hs⟩ := h.masked (by simp [due, hpc, ServicePc.running])
    refine ⟨?_,fun hs' => by simp [next, hs] at hs'⟩
    simpa [next, due, hpc, ServicePc.running] using honce
  | enable =>
    have hpc : v.pc = .serviced := hok
    obtain ⟨he,hs⟩ := h.masked (by simp [due, hpc, ServicePc.running])
    refine ⟨?_,fun hs' => by simp [next, hs] at hs'⟩
    simpa [next, due, hpc, he, ServicePc.running, add_comm] using honce

theorem Attended.outstanding_read {v : LineView} (h : v.Attended) (hok : v.allows .read) :
    (v.next .read).outstanding ≤ v.outstanding ∧
      ((v.source && v.enabled) = true → (v.next .read).outstanding+25 ≤ v.outstanding) := by
  have hs : v.seen = false := hok
  cases hf : v.source && v.enabled with
  | true =>
    obtain ⟨hsource,he⟩ := Bool.and_eq_true_iff.mp hf
    obtain ⟨_,_,hpc⟩ := h.idle he
    simp [next, outstanding, hs, hsource, he, hpc]
    omega
  | false =>
    refine ⟨?_,fun hf => by cases hf⟩
    simp [next, outstanding, hs, hf]

theorem Attended.outstanding_next {v : LineView} {op : LineOp} (h : v.Attended)
    (hok : v.allows op) (hraise : op ≠ .raise) :
    (v.next op).outstanding+op.effort ≤ v.outstanding := by
  cases op with
  | keep => exact Nat.le_refl _
  | raise => exact absurd rfl hraise
  | read => exact (h.outstanding_read hok).1
  | disable =>
    have hc : v.claimed = false := hok
    cases hs : v.seen with
    | true =>
      obtain ⟨_,_,hpc⟩ := h.idle (h.seen hs).2
      simp [next, outstanding, hs, hc, hpc, ServicePc.over, LineOp.effort]
    | false => simp [next, outstanding, hs, hc, LineOp.effort]
  | schedule =>
    have hc : v.claimed = true := hok
    obtain ⟨hp,_⟩ := h.unqueued hc
    simp only [next, outstanding, hc, hp, Bool.toNat_true, Bool.toNat_false, LineOp.effort]
    omega
  | begin =>
    obtain ⟨hp,hpc⟩ := hok
    obtain ⟨he,_⟩ := h.masked (by simp [due, hp])
    simp [next, outstanding, hp, hpc, he, ServicePc.toGo, ServicePc.over, LineOp.effort]
  | service =>
    have hpc : v.pc = .begun := hok
    obtain ⟨he,_⟩ := h.masked (by simp [due, hpc, ServicePc.running])
    simp [next, outstanding, hpc, he, ServicePc.toGo, ServicePc.over, LineOp.effort]
  | enable =>
    have hpc : v.pc = .serviced := hok
    obtain ⟨he,hs⟩ := h.masked (by simp [due, hpc, ServicePc.running])
    simp [next, outstanding, hpc, hs, ServicePc.toGo, ServicePc.over, LineOp.effort]

end LineView

/-! The system as one of its engines sees it. -/

theorem mem_isrSlots (e : EngineSlot) : e ∈ isrSlots := by
  obtain ⟨channel,fromDev⟩ := e
  cases fromDev with
  | false => simp [isrSlots]
  | true => simp [isrSlots]

theorem isrSlots_nodup : isrSlots.Nodup := by decide

namespace IsrPc

def seen : IsrPc → U32
  | .read chIrq => chIrq
  | _ => 0

def claimed (e : EngineSlot) : IsrPc → U32
  | .disabled chIrq => chIrq
  | .scheduling chIrq rest => if e ∈ rest then chIrq else 0
  | _ => 0

def Ordered : IsrPc → Prop
  | .scheduling _ rest => rest.Nodup
  | _ => True

def toGo : IsrPc → Nat
  | .idle => 0
  | .read _ => 12
  | .disabled _ => 11
  | .scheduling _ rest => rest.length+1

end IsrPc

def IsrSystem.view (s : IsrSystem) (e : EngineSlot) (n : Nat) : LineView where
  source := s.source.getLsbD n
  enabled := s.channelIntEnable.getLsbD n
  seen := s.isr.seen.getLsbD n
  claimed := (s.isr.claimed e).getLsbD n
  pending := (s.work e).pending
  pc := (s.work e).pc

def ServicePc.op : ServicePc → LineOp
  | .idle => .begin
  | .begun => .service
  | .serviced => .enable

def IsrOp.line (lro : IrqLines) (s : IsrSystem) (e : EngineSlot) : IsrOp → LineOp
  | .raise f => if f = e then .raise else .keep
  | .read => .read
  | .disable => .disable
  | .user _ => .keep
  | .schedule => match s.isr with
    | .scheduling chIrq (f :: _) => if f = e ∧ lro.fired chIrq e then .schedule else .keep
    | _ => .keep
  | .work f => if f = e then (s.work e).pc.op else .keep

variable {lro : IrqLines} {s t : IsrSystem} {e f : EngineSlot} {n : Nat}

theorem IrqLines.bitmask_getLsbD (he : lro.engine e = some n) :
    (lro.bitmask f).getLsbD n = decide (f = e) := by
  cases hf : lro.engine f with
  | none =>
    have hne : f ≠ e := by
      rintro rfl
      rw [hf] at he
      cases he
    simp [IrqLines.bitmask, hf, hne]
  | some m =>
    simp only [IrqLines.bitmask, hf, Option.map_some, Option.getD_some]
    rw [irqBitmask_getLsbD (lro.small f m hf)]
    by_cases hmn : m = n
    · obtain rfl := hmn
      simp [lro.apart f e m hf he]
    · have hne : f ≠ e := by
        rintro rfl
        exact hmn (Option.some.inj (hf.symm.trans he))
      simp [hmn, hne]

theorem IrqLines.fired_eq (he : lro.engine e = some n) (chIrq : U32) :
    lro.fired chIrq e = chIrq.getLsbD n := by
  simp only [IrqLines.fired, he, Option.map_some, Option.getD_some]
  exact irqBitmask_and (lro.small e n he) chIrq

theorem IrqLines.lt_of_engine (he : lro.engine e = some n) : n < 32 := by
  have h8 := lro.small e n he
  omega

inductive IsrStep (lro : IrqLines) (s : IsrSystem) : IsrOp → IsrSystem → Prop
  | raise (e : EngineSlot) : IsrStep lro s (.raise e) { s with source := s.source ||| lro.bitmask e }
  | read : s.isr = .idle → IsrStep lro s .read { s with isr := .read s.channelIntRequest }
  | disable {chIrq : U32} : s.isr = .read chIrq → IsrStep lro s .disable { s with
      channelIntEnable := s.channelIntEnable &&& ~~~chIrq
      isr := .disabled chIrq }
  | user {chIrq userIrq : U32} : s.isr = .disabled chIrq → IsrStep lro s (.user userIrq) { s with
      eventsIrq := userIrqServices userIrq s.eventsIrq
      isr := .scheduling chIrq isrSlots }
  | finish {chIrq : U32} : s.isr = .scheduling chIrq [] →
      IsrStep lro s .schedule { s with isr := .idle, irqCount := s.irqCount+1 }
  | skip {chIrq : U32} {e : EngineSlot} {rest : List EngineSlot} :
      s.isr = .scheduling chIrq (e :: rest) → lro.fired chIrq e = false →
      IsrStep lro s .schedule { s with isr := .scheduling chIrq rest }
  | schedule {chIrq : U32} {e : EngineSlot} {rest : List EngineSlot} :
      s.isr = .scheduling chIrq (e :: rest) → lro.fired chIrq e = true →
      IsrStep lro s .schedule { s.setWork e ⟨true,(s.work e).pc⟩ with isr := .scheduling chIrq rest }
  | begin {e : EngineSlot} : (s.work e).pc = .idle → (s.work e).pending = true →
      IsrStep lro s (.work e) (s.setWork e ⟨false,.begun⟩)
  | service {e : EngineSlot} : (s.work e).pc = .begun →
      IsrStep lro s (.work e) { s.setWork e ⟨(s.work e).pending,.serviced⟩ with
        source := s.source &&& ~~~lro.bitmask e }
  | enable {e : EngineSlot} : (s.work e).pc = .serviced →
      IsrStep lro s (.work e) { s.setWork e ⟨(s.work e).pending,.idle⟩ with
        channelIntEnable := s.channelIntEnable ||| lro.bitmask e }

theorem workNext_step (h : workNext lro s e = some t) : IsrStep lro s (.work e) t := by
  cases hpc : (s.work e).pc with
  | idle =>
    cases hp : (s.work e).pending with
    | false => simp [workNext, hpc, hp] at h
    | true =>
      simp only [workNext, hpc, hp, if_true, Option.some.injEq] at h
      exact h ▸ .begin hpc hp
  | begun =>
    simp only [workNext, hpc, Option.some.injEq] at h
    exact h ▸ .service hpc
  | serviced =>
    simp only [workNext, hpc, Option.some.injEq] at h
    exact h ▸ .enable hpc

theorem isrNext_step {op : IsrOp} (h : isrNext lro s op = some t) : IsrStep lro s op t := by
  cases op with
  | raise e => exact Option.some.inj h ▸ .raise e
  | work e => exact workNext_step h
  | read =>
    cases hisr : s.isr with
    | idle =>
      simp only [isrNext, hisr, Option.some.injEq] at h
      exact h ▸ .read hisr
    | read chIrq | disabled chIrq | scheduling chIrq rest => simp [isrNext, hisr] at h
  | disable =>
    cases hisr : s.isr with
    | read chIrq =>
      simp only [isrNext, hisr, Option.some.injEq] at h
      exact h ▸ .disable hisr
    | idle | disabled chIrq | scheduling chIrq rest => simp [isrNext, hisr] at h
  | user userIrq =>
    cases hisr : s.isr with
    | disabled chIrq =>
      simp only [isrNext, hisr, Option.some.injEq] at h
      exact h ▸ .user hisr
    | idle | read chIrq | scheduling chIrq rest => simp [isrNext, hisr] at h
  | schedule =>
    cases hisr : s.isr with
    | idle | read chIrq | disabled chIrq => simp [isrNext, hisr] at h
    | scheduling chIrq rest =>
      cases rest with
      | nil =>
        simp only [isrNext, hisr, Option.some.injEq] at h
        exact h ▸ .finish hisr
      | cons f rest =>
        simp only [isrNext, hisr, Option.some.injEq] at h
        cases hfired : lro.fired chIrq f with
        | false =>
          simp only [hfired, Bool.false_eq_true, if_false] at h
          exact h ▸ .skip hisr hfired
        | true =>
          simp only [hfired, if_true] at h
          exact h ▸ .schedule hisr hfired

theorem IsrStep.ordered {op : IsrOp} (h : IsrStep lro s op t) (hs : s.isr.Ordered) :
    t.isr.Ordered := by
  cases h with
  | raise | begin | service | enable => exact hs
  | read | disable | finish => exact True.intro
  | user => exact isrSlots_nodup
  | skip hisr | schedule hisr =>
    rw [hisr] at hs
    exact (List.nodup_cons.mp hs).2

theorem IsrStep.view {op : IsrOp} (h : IsrStep lro s op t) (he : lro.engine e = some n)
    (hs : s.isr.Ordered) : (s.view e n).allows (op.line lro s e) ∧
      t.view e n = (s.view e n).next (op.line lro s e) := by
  have hbit := fun f => lro.bitmask_getLsbD (f := f) he
  have h32 := lro.lt_of_engine he
  cases h with
  | raise f =>
    by_cases hfe : f = e
    · simp [IsrOp.line, hfe, LineView.allows, LineView.next, IsrSystem.view, hbit]
    · simp [IsrOp.line, hfe, LineView.allows, LineView.next, IsrSystem.view, hbit]
  | read hisr =>
    simp [IsrOp.line, hisr, LineView.allows, LineView.next, IsrSystem.view, IsrPc.seen,
      IsrPc.claimed, IsrSystem.channelIntRequest]
  | disable hisr =>
    simp [IsrOp.line, hisr, LineView.allows, LineView.next, IsrSystem.view, IsrPc.seen,
      IsrPc.claimed, h32]
  | user hisr =>
    simp [IsrOp.line, hisr, LineView.allows, LineView.next, IsrSystem.view, IsrPc.seen,
      IsrPc.claimed, mem_isrSlots]
  | finish hisr =>
    simp [IsrOp.line, hisr, LineView.allows, LineView.next, IsrSystem.view, IsrPc.seen,
      IsrPc.claimed]
  | @skip chIrq f rest hisr hfired =>
    by_cases hfe : f = e
    · -- the bit is not set, so that nothing was claimed for this engine
      obtain rfl := hfe
      rw [lro.fired_eq he] at hfired
      rw [hisr] at hs
      simp [IsrOp.line, hisr, lro.fired_eq he, hfired, LineView.allows, LineView.next,
        IsrSystem.view, IsrPc.seen, IsrPc.claimed, (List.nodup_cons.mp hs).1]
    · simp [IsrOp.line, hisr, hfe, Ne.symm hfe, LineView.allows, LineView.next, IsrSystem.view,
        IsrPc.seen, IsrPc.claimed]
  | @schedule chIrq f rest hisr hfired =>
    rw [hisr] at hs
    obtain ⟨hf,_⟩ := List.nodup_cons.mp hs
    by_cases hfe : f = e
    · obtain rfl := hfe
      rw [lro.fired_eq he] at hfired
      simp [IsrOp.line, hisr, lro.fired_eq he, hfired, LineView.allows, LineView.next,
        IsrSystem.view, IsrSystem.setWork, IsrPc.seen, IsrPc.claimed, hf]
    · simp [IsrOp.line, hisr, hfe, Ne.symm hfe, LineView.allows, LineView.next, IsrSystem.view,
        IsrSystem.setWork, IsrPc.seen, IsrPc.claimed]
  | @begin f hpc hp =>
    by_cases hfe : f = e
    · obtain rfl := hfe
      simp [IsrOp.line, hpc, ServicePc.op, LineView.allows, LineView.next, IsrSystem.view,
        IsrSystem.setWork, hp]
    · simp [IsrOp.line, hfe, Ne.symm hfe, LineView.allows, LineView.next, IsrSystem.view,
        IsrSystem.setWork]
  | @service f hpc =>
    by_cases hfe : f = e
    · obtain rfl := hfe
      simp [IsrOp.line, hpc, ServicePc.op, LineView.allows, LineView.next, IsrSystem.view,
        IsrSystem.setWork, hbit]
    · simp [IsrOp.line, hfe, Ne.symm hfe, LineView.allows, LineView.next, IsrSystem.view,
        IsrSystem.setWork, hbit]
      exact fun _ => h32
  | @enable f hpc =>
    by_cases hfe : f = e
    · obtain rfl := hfe
      simp [IsrOp.line, hpc, ServicePc.op, LineView.allows, LineView.next, IsrSystem.view,
        IsrSystem.setWork, hbit]
    · simp [IsrOp.line, hfe, Ne.symm hfe, LineView.allows, LineView.next, IsrSystem.view,
        IsrSystem.setWork, hbit]

/-- Before the first interrupt: all channels are enabled, no work was scheduled. -/
structure IsrSystem.Begins (lro : IrqLines) (s : IsrSystem) : Prop where
  source : ∀ j, s.source.getLsbD j = true → ∃ e, lro.engine e = some j
  channelIntEnable : s.channelIntEnable = BitVec.allOnes 32
  isr : s.isr = .idle
  work : ∀ e, s.work e = ⟨false,.idle⟩

structure IsrSystem.Attended (lro : IrqLines) (s : IsrSystem) : Prop where
  source : ∀ j, s.source.getLsbD j = true → ∃ e, lro.engine e = some j
  ordered : s.isr.Ordered
  line : ∀ e n, lro.engine e = some n → (s.view e n).Attended
  absent : ∀ e, lro.engine e = none → s.work e = ⟨false,.idle⟩

theorem IsrSystem.Begins.attended (h : s.Begins lro) : s.Attended lro where
  source := h.source
  ordered := by
    rw [h.isr]
    exact True.intro
  line e n he := by
    have h32 := lro.lt_of_engine he
    have henable : s.channelIntEnable.getLsbD n = true := by
      rw [h.channelIntEnable, BitVec.getLsbD_allOnes]
      exact decide_eq_true h32
    refine ⟨?_,fun hs => ?_⟩
    · simp [IsrSystem.view, LineView.due, henable, h.isr, h.work, IsrPc.claimed,
        ServicePc.running]
    · simp [IsrSystem.view, h.isr, IsrPc.seen] at hs
  absent e _ := h.work e

theorem IrqLines.engine_of_bitmask {j : Nat} (h : (lro.bitmask f).getLsbD j = true) :
    lro.engine f = some j := by
  cases hf : lro.engine f with
  | none => simp [IrqLines.bitmask, hf] at h
  | some m =>
    simp only [IrqLines.bitmask, hf, Option.map_some, Option.getD_some,
      irqBitmask_getLsbD (lro.small f m hf), decide_eq_true_eq] at h
    rw [h]

theorem IsrStep.source {op : IsrOp} (h : IsrStep lro s op t)
    (hs : ∀ j, s.source.getLsbD j = true → ∃ e, lro.engine e = some j) (j : Nat)
    (hj : t.source.getLsbD j = true) : ∃ e, lro.engine e = some j := by
  cases h with
  | raise f =>
    simp only [BitVec.getLsbD_or, Bool.or_eq_true] at hj
    exact hj.elim (hs j) fun hf => ⟨f,IrqLines.engine_of_bitmask hf⟩
  | service =>
    simp only [BitVec.getLsbD_and, Bool.and_eq_true] at hj
    exact hs j hj.1
  | read | disable | user | finish | skip | schedule | begin | enable => exact hs j hj

theorem IsrStep.absent {op : IsrOp} (h : IsrStep lro s op t) (he : lro.engine e = none)
    (hs : s.work e = ⟨false,.idle⟩) : t.work e = ⟨false,.idle⟩ := by
  cases h with
  | raise | read | disable | user | finish | skip => exact hs
  | @schedule chIrq f rest hisr hfired =>
    have hne : e ≠ f := by
      rintro rfl
      simp [IrqLines.fired, he] at hfired
    simpa [IsrSystem.setWork, hne] using hs
  | @begin f hpc hp =>
    have hne : e ≠ f := by
      rintro rfl
      simp [hs] at hp
    simpa [IsrSystem.setWork, hne] using hs
  | @service f hpc | @enable f hpc =>
    have hne : e ≠ f := by
      rintro rfl
      simp [hs] at hpc
    simpa [IsrSystem.setWork, hne] using hs

theorem IsrSystem.Attended.step {op : IsrOp} (hs : s.Attended lro)
    (h : isrNext lro s op = some t) : t.Attended lro where
  source := (isrNext_step h).source hs.source
  ordered := (isrNext_step h).ordered hs.ordered
  line e n he := by
    obtain ⟨hok,hview⟩ := (isrNext_step h).view he hs.ordered
    rw [hview]
    exact (hs.line e n he).step hok
  absent e he := (isrNext_step h).absent he (hs.absent e he)

def IsrSystem.due (s : IsrSystem) (e : EngineSlot) (n : Nat) : Nat := (s.view e n).due

theorem IsrSystem.Attended.once (hs : s.Attended lro) (he : lro.engine e = some n) :
    (s.channelIntEnable.getLsbD n).toNat+s.due e n = 1 := (hs.line e n he).once

/-- However the handler, the work items and the engines take turns: an engine's
interrupt is masked exactly while its work is due, and then it is due once; so the
work that is scheduled is never queued already, and what an engine has to report
shows as a request or is still to be looked after. -/
theorem run_attended {s₀ : IsrSystem} {ops : List IsrOp} (h₀ : s₀.Begins lro)
    (r : Run (stepOf (isrNext lro)) anyStep s₀ ops s) (he : lro.engine e = some n) :
    (s.channelIntEnable.getLsbD n).toNat+s.due e n = 1 ∧
      (∀ chIrq rest, s.isr = .scheduling chIrq (e :: rest) → lro.fired chIrq e = true →
        s.work e = ⟨false,.idle⟩) ∧
      (s.source.getLsbD n = true → s.channelIntRequest.getLsbD n = true ∨ s.due e n = 1) := by
  have h : s.Attended lro := r.invariant _ h₀.attended fun _ _ _ hs _ hstep => hs.step hstep
  have honce := h.once he
  refine ⟨honce,fun chIrq rest hisr hfired => ?_,fun hsource => ?_⟩
  · rw [lro.fired_eq he] at hfired
    have hclaimed : (s.view e n).claimed = true := by
      simp [IsrSystem.view, hisr, IsrPc.claimed, hfired]
    obtain ⟨hp,hpc⟩ := (h.line e n he).unqueued hclaimed
    exact congrArg₂ ServiceWork.mk hp hpc
  · cases henable : s.channelIntEnable.getLsbD n with
    | true => simp [IsrSystem.channelIntRequest, hsource, henable]
    | false =>
      rw [henable, Bool.toNat_false, Nat.zero_add] at honce
      exact .inr honce

def IsrOp.Pending (s : IsrSystem) : IsrOp → Prop
  | .raise _ => False
  | .read => s.channelIntRequest ≠ 0#32
  | .disable | .user _ | .schedule | .work _ => True

instance (s : IsrSystem) : (op : IsrOp) → Decidable (IsrOp.Pending s op)
  | .raise _ => isFalse id
  | .read => inferInstanceAs (Decidable (_ ≠ _))
  | .disable | .user _ | .schedule | .work _ => isTrue trivial

def IrqLines.outstanding (lro : IrqLines) (s : IsrSystem) (e : EngineSlot) : Nat :=
  ((lro.engine e).map fun n => (s.view e n).outstanding).getD 0

def IsrSystem.outstanding (lro : IrqLines) (s : IsrSystem) : Nat :=
  s.isr.toGo+(isrSlots.map (lro.outstanding s)).sum

theorem sum_map_drop {ι : Type*} {l : List ι} {f g : ι → ℕ} {k : ℕ} {a : ι} (ha : a ∈ l)
    (hle : ∀ i ∈ l, f i ≤ g i) (hk : f a+k ≤ g a) : (l.map f).sum+k ≤ (l.map g).sum := by
  obtain ⟨before,behind,rfl⟩ := List.append_of_mem ha
  have hbefore : (before.map f).sum ≤ (before.map g).sum :=
    List.sum_le_sum fun i hi => hle i (by simp [hi])
  have hbehind : (behind.map f).sum ≤ (behind.map g).sum :=
    List.sum_le_sum fun i hi => hle i (by simp [hi])
  simp only [List.map_append, List.map_cons, List.sum_append, List.sum_cons]
  omega

theorem IsrSystem.Attended.outstanding_next {op : IsrOp} (hs : s.Attended lro)
    (h : IsrStep lro s op t) (hop : ∀ f, op ≠ .raise f) (e : EngineSlot) :
    lro.outstanding t e ≤ lro.outstanding s e ∧
      ∀ n, lro.engine e = some n →
        lro.outstanding t e+(op.line lro s e).effort ≤ lro.outstanding s e := by
  have hline : op.line lro s e ≠ .raise := by
    cases op with
    | raise f => exact absurd rfl (hop f)
    | read | disable | user => simp [IsrOp.line]
    | schedule =>
      simp only [IsrOp.line]
      cases s.isr with
      | scheduling chIrq rest =>
        cases rest with
        | nil => simp
        | cons f rest => simp only [ne_eq]; split_ifs <;> simp
      | idle | read | disabled => simp
    | work f =>
      simp only [IsrOp.line]
      cases (s.work e).pc <;> simp only [ServicePc.op] <;> split_ifs <;> simp
  have hstep : ∀ n, lro.engine e = some n →
      lro.outstanding t e+(op.line lro s e).effort ≤ lro.outstanding s e := by
    intro n he
    obtain ⟨hok,hview⟩ := h.view he hs.ordered
    simp only [IrqLines.outstanding, he, Option.map_some, Option.getD_some, hview]
    exact (hs.line e n he).outstanding_next hok hline
  refine ⟨?_,hstep⟩
  cases he : lro.engine e with
  | none => simp [IrqLines.outstanding, he]
  | some n => exact (Nat.le_add_right ..).trans (hstep n he)

theorem IsrSystem.Attended.requesting (hs : s.Attended lro) (h : s.channelIntRequest ≠ 0#32) :
    ∃ e n, lro.engine e = some n ∧ s.channelIntRequest.getLsbD n = true := by
  by_contra hnone
  refine h (BitVec.eq_of_getLsbD_eq fun j _ => ?_)
  rw [BitVec.getLsbD_zero]
  cases hj : s.channelIntRequest.getLsbD j with
  | false => rfl
  | true =>
    have hsource : s.source.getLsbD j = true := by
      rw [IsrSystem.channelIntRequest, BitVec.getLsbD_and, Bool.and_eq_true] at hj
      exact hj.1
    obtain ⟨e,he⟩ := hs.source j hsource
    exact absurd ⟨e,j,he,hj⟩ hnone

/-- Every step brings down what is left to be done. -/
theorem IsrSystem.Attended.outstanding_lt {op : IsrOp} (hs : s.Attended lro)
    (hop : op.Pending s) (h : IsrStep lro s op t) : t.outstanding lro < s.outstanding lro := by
  have hraise : ∀ f, op ≠ .raise f := by
    rintro f rfl
    exact hop
  have hnext := fun e => hs.outstanding_next h hraise e
  have hsum : (isrSlots.map (lro.outstanding t)).sum ≤ (isrSlots.map (lro.outstanding s)).sum :=
    List.sum_le_sum fun e _ => (hnext e).1
  have hwork : ∀ f, op = .work f → s.work f ≠ ⟨false,.idle⟩ → (s.work f).pc.op.effort = 1 →
      t.isr = s.isr → t.outstanding lro < s.outstanding lro := by
    rintro f rfl hne heffort hisr
    cases hf : lro.engine f with
    | none => exact absurd (hs.absent f hf) hne
    | some n =>
      have hdrop := (hnext f).2 n hf
      simp only [IsrOp.line, if_true, heffort] at hdrop
      have hsum := sum_map_drop (mem_isrSlots f) (fun e _ => (hnext e).1) hdrop
      simp only [IsrSystem.outstanding, hisr]
      omega
  have h' := h
  cases h with
  | raise f => exact absurd rfl (hraise f)
  | read hisr =>
    obtain ⟨e,n,he,hrequest⟩ := hs.requesting hop
    obtain ⟨hok,hview⟩ := h'.view he hs.ordered
    have hdrop := ((hs.line e n he).outstanding_read hok).2 (by
      simpa [IsrSystem.view, IsrSystem.channelIntRequest] using hrequest)
    have hsum := sum_map_drop (k := 25) (mem_isrSlots e) (fun e _ => (hnext e).1) (by
      simp only [IrqLines.outstanding, he, Option.map_some, Option.getD_some, hview]
      exact hdrop)
    simp only [IsrSystem.outstanding, hisr, IsrPc.toGo] at hsum ⊢
    omega
  | disable hisr | finish hisr | skip hisr =>
    simp only [IsrSystem.outstanding, hisr, IsrPc.toGo, List.length_cons] at hsum ⊢
    omega
  | user hisr =>
    have hlength : isrSlots.length = 8 := rfl
    simp only [IsrSystem.outstanding, hisr, IsrPc.toGo, hlength] at hsum ⊢
    omega
  | schedule hisr =>
    simp only [IsrSystem.outstanding, hisr, IsrPc.toGo, List.length_cons] at hsum ⊢
    omega
  | @begin f hpc hp =>
    refine hwork f rfl (fun hw => ?_) (by rw [hpc]; rfl) rfl
    rw [hw] at hp
    cases hp
  | @service f hpc | @enable f hpc =>
    refine hwork f rfl (fun hw => ?_) (by rw [hpc]; rfl) rfl
    rw [hw] at hpc
    cases hpc

theorem IsrSystem.Attended.rests (hs : s.Attended lro)
    (hstuck : ∀ op, op.Pending s → isrNext lro s op = none) :
    s.isr = .idle ∧ s.source = 0#32 ∧ (∀ e, s.work e = ⟨false,.idle⟩) ∧
      ∀ e n, lro.engine e = some n → s.channelIntEnable.getLsbD n = true := by
  have hisr : s.isr = .idle := by
    cases hisr : s.isr with
    | idle => rfl
    | read chIrq => simpa [isrNext, hisr] using hstuck .disable trivial
    | disabled chIrq => simpa [isrNext, hisr] using hstuck (.user 0) trivial
    | scheduling chIrq rest =>
      have h := hstuck .schedule trivial
      cases rest <;> simp [isrNext, hisr] at h
  have hwork : ∀ e, s.work e = ⟨false,.idle⟩ := by
    intro e
    have h := hstuck (.work e) trivial
    cases hpc : (s.work e).pc with
    | idle =>
      cases hp : (s.work e).pending with
      | false => exact congrArg₂ ServiceWork.mk hp hpc
      | true => simp [isrNext, workNext, hpc, hp] at h
    | begun | serviced => simp [isrNext, workNext, hpc] at h
  have henable : ∀ e n, lro.engine e = some n → s.channelIntEnable.getLsbD n = true := by
    intro e n he
    have honce := hs.once he
    cases hb : s.channelIntEnable.getLsbD n with
    | true => rfl
    | false =>
      simp [hb, IsrSystem.due, LineView.due, IsrSystem.view, hisr, hwork, IsrPc.claimed,
        ServicePc.running] at honce
  refine ⟨hisr,?_,hwork,henable⟩
  refine BitVec.eq_of_getLsbD_eq fun j _ => ?_
  rw [BitVec.getLsbD_zero]
  cases hj : s.source.getLsbD j with
  | false => rfl
  | true =>
    -- its interrupt is enabled, so the handler would have a request to read
    obtain ⟨e,he⟩ := hs.source j hj
    have hrequest : s.channelIntRequest ≠ 0#32 := by
      intro h
      have hbit : s.channelIntRequest.getLsbD j = true := by
        rw [IsrSystem.channelIntRequest, BitVec.getLsbD_and, hj, henable e j he, Bool.and_self]
      rw [h, BitVec.getLsbD_zero] at hbit
      cases hbit
    simpa [isrNext, hisr] using hstuck .read hrequest

theorem LineView.Attended.outstanding_le {v : LineView} (h : v.Attended) : v.outstanding ≤ 31 := by
  obtain ⟨source,enabled,seen,claimed,pending,pc⟩ := v
  obtain ⟨honce,hseen⟩ := h
  revert honce hseen
  cases pc <;> revert source enabled seen claimed pending <;> decide

theorem IsrSystem.Attended.outstanding_le (hs : s.Attended lro) : s.outstanding lro ≤ 260 := by
  have hline : ∀ e ∈ isrSlots, lro.outstanding s e ≤ 31 := by
    intro e _
    cases he : lro.engine e with
    | none => simp [IrqLines.outstanding, he]
    | some n =>
      simp only [IrqLines.outstanding, he, Option.map_some, Option.getD_some]
      exact (hs.line e n he).outstanding_le
  have hsum : (isrSlots.map (lro.outstanding s)).sum ≤ (isrSlots.map fun _ => 31).sum :=
    List.sum_le_sum hline
  have hisr : s.isr.toGo ≤ 12 := by
    have hordered := hs.ordered
    cases hisr : s.isr with
    | idle | read chIrq | disabled chIrq => simp [IsrPc.toGo]
    | scheduling chIrq rest =>
      rw [hisr] at hordered
      have hle := (List.Nodup.subperm hordered fun e _ => mem_isrSlots e).length_le
      have hlength : isrSlots.length = 8 := rfl
      simp only [IsrPc.toGo]
      omega
  have h248 : (isrSlots.map fun _ => 31).sum = 248 := rfl
  simp only [IsrSystem.outstanding]
  omega

/-- When nothing more is reported, the handler and the work items come to an end
however they take turns, and then every report was served and every engine can
interrupt again. -/
theorem run_rests {s₀ : IsrSystem} {ops more : List IsrOp} (h₀ : s₀.Begins lro)
    (r : Run (stepOf (isrNext lro)) anyStep s₀ ops s)
    (r' : Run (stepOf (isrNext lro)) IsrOp.Pending s more t) :
    more.length ≤ 260 ∧
      ((∀ op, op.Pending t → isrNext lro t op = none) →
        t.isr = .idle ∧ t.source = 0#32 ∧ (∀ e, t.work e = ⟨false,.idle⟩) ∧
        ∀ e n, lro.engine e = some n → t.channelIntEnable.getLsbD n = true) := by
  have h : s.Attended lro := r.invariant _ h₀.attended fun _ _ _ hs _ hstep => hs.step hstep
  have hkeep : ∀ u op v, u.Attended lro → IsrOp.Pending u op → stepOf (isrNext lro) u op v →
      v.Attended lro ∧ v.outstanding lro < u.outstanding lro :=
    fun u op v hu hop hstep => ⟨hu.step hstep,hu.outstanding_lt hop (isrNext_step hstep)⟩
  obtain ⟨ht,hle⟩ := r'.bounded (IsrSystem.Attended lro) (IsrSystem.outstanding lro) h hkeep
  have hbound := h.outstanding_le
  exact ⟨by omega,ht.rests⟩

def IrqLines.probed (present : EngineSlot → Bool) : IrqLines where
  engine e := if present e then some ((isrSlots.filter present).idxOf e) else none
  small e n h := by
    obtain ⟨hpresent,rfl⟩ : present e = true ∧ (isrSlots.filter present).idxOf e = n := by
      simpa using h
    have hmem : e ∈ isrSlots.filter present := by simp [mem_isrSlots, hpresent]
    have hlt := List.idxOf_lt_length_of_mem hmem
    have hle : (isrSlots.filter present).length ≤ 8 := List.length_filter_le ..
    omega
  apart e f n he hf := by
    obtain ⟨hpe,hne⟩ : present e = true ∧ (isrSlots.filter present).idxOf e = n := by
      simpa using he
    obtain ⟨_,hnf⟩ : present f = true ∧ (isrSlots.filter present).idxOf f = n := by
      simpa using hf
    have hmem : e ∈ isrSlots.filter present := by simp [mem_isrSlots, hpe]
    exact (List.idxOf_inj hmem).mp (hne.trans hnf.symm)

def twoEngines : IrqLines := .probed (enginePresent grantsAll)

def IsrSystem.started : IsrSystem :=
  ⟨0,BitVec.allOnes 32,fun _ => false,0,.idle,fun _ => ⟨false,.idle⟩⟩

theorem started_begins : IsrSystem.started.Begins twoEngines where
  source j hj := by simp [IsrSystem.started] at hj
  channelIntEnable := rfl
  isr := rfl
  work _ := rfl

def bothReport (e f : EngineSlot) : List IsrOp :=
  [.raise e,.read,.raise f,.disable,.user 1] ++ List.replicate 9 .schedule

def bothServed (e f : EngineSlot) : List IsrOp :=
  List.replicate 3 (.work e) ++ [.read,.disable,.user 0] ++ List.replicate 9 .schedule ++
    List.replicate 3 (.work f)

def bothReported (e f : EngineSlot) : IsrSystem :=
  replay (isrNext twoEngines) .started (bothReport e f)

def bothAtRest (e f : EngineSlot) : IsrSystem :=
  replay (isrNext twoEngines) (bothReported e f) (bothServed e f)

theorem bothReport_runs : Run (stepOf (isrNext twoEngines)) anyStep .started
    (bothReport ⟨1,false⟩ ⟨0,false⟩) (bothReported ⟨1,false⟩ ⟨0,false⟩) :=
  replay_run (by decide +kernel)

theorem run_attended_bothReport :
    (twoEngines.engine ⟨0,false⟩).isSome ∧
    ((bothReported ⟨1,false⟩ ⟨0,false⟩).source.getLsbD 0 = true →
      (bothReported ⟨1,false⟩ ⟨0,false⟩).channelIntRequest.getLsbD 0 = true ∨
      (bothReported ⟨1,false⟩ ⟨0,false⟩).due ⟨0,false⟩ 0 = 1) :=
  ⟨by decide,(run_attended started_begins bothReport_runs (by decide)).2.2⟩

theorem bothAtRest_stuck (op : IsrOp) (h : op.Pending (bothAtRest ⟨1,false⟩ ⟨0,false⟩)) :
    isrNext twoEngines (bothAtRest ⟨1,false⟩ ⟨0,false⟩) op = none := by
  have hisr : (bothAtRest ⟨1,false⟩ ⟨0,false⟩).isr = .idle := by decide +kernel
  have hrequest : (bothAtRest ⟨1,false⟩ ⟨0,false⟩).channelIntRequest = 0#32 := by decide +kernel
  cases op with
  | raise e => exact h.elim
  | read => exact absurd hrequest h
  | disable | user userIrq | schedule => simp [isrNext, hisr]
  | work e =>
    obtain ⟨channel,fromDev⟩ := e
    have hwork : ∀ channel fromDev,
        (bothAtRest ⟨1,false⟩ ⟨0,false⟩).work ⟨channel,fromDev⟩ = ⟨false,.idle⟩ := by
      decide +kernel
    simp [isrNext, workNext, hwork]

theorem run_rests_bothServed : (bothAtRest ⟨1,false⟩ ⟨0,false⟩).source = 0#32 ∧
    ∀ e n, twoEngines.engine e = some n →
      (bothAtRest ⟨1,false⟩ ⟨0,false⟩).channelIntEnable.getLsbD n = true := by
  have r : Run (stepOf (isrNext twoEngines)) IsrOp.Pending (bothReported ⟨1,false⟩ ⟨0,false⟩)
      (bothServed ⟨1,false⟩ ⟨0,false⟩) (bothAtRest ⟨1,false⟩ ⟨0,false⟩) :=
    replay_ok (by decide +kernel)
  have hrest := (run_rests started_begins bothReport_runs r).2 bothAtRest_stuck
  exact ⟨hrest.2.1,hrest.2.2.2⟩

end DmaCamera
