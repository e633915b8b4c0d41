import DmaCamera.ReadOrder
import DmaCamera.Overrun
set_option autoImplicit false

namespace DmaCamera
open Circular Countdown Framing Runs

/-! Without credits: whether a reader is told of an overrun before a call clears
the flag, and what the reads deliver if none fails. -/

structure Watch where
  sys : ReadSystem
  /-- How many calls had returned when the flag was last raised. -/
  raisedAt : Nat
  /-- The calls whose section met a malformed result. -/
  failing : Nat → Bool
  /-- Since the flag was raised such a call has returned, or an interrupted one. -/
  reported : Bool
  /-- The device has overwritten a slot that waited. -/
  spoiled : Bool
  /-- A raised flag was cleared though no call had returned an error since. -/
  silent : Bool

def Watch.opened : Watch := ⟨.opened false,0,fun _ => false,false,false,false⟩

def Watch.told (w : Watch) : Bool :=
  (w.sys.returns.drop w.raisedAt).any fun ret => decide (ret.rc < 0)

def Watch.record (w : Watch) (t : ReadSystem) : ReadOp → Watch
  | .fill _ => { w with sys := t, spoiled := w.spoiled || !decide w.sys.hasRoom }
  | .service => if w.sys.rx.ring.raises then
      { w with sys := t, raisedAt := w.sys.returns.length, reported := false }
    else { w with sys := t }
  | .start i _ => { w with sys := t, failing := Function.update w.failing i false }
  | .check _ =>
    { w with sys := t, reported := w.reported || decide (w.sys.returns.length < t.returns.length) }
  | .lock i => { w with
      sys := t
      failing := Function.update w.failing i (sectionBytes w.sys.rx.ring.pending).isNone }
  | .clear _ => { w with sys := t, silent := w.silent || w.sys.rx.ring.rxOverrun && !w.told }
  | .finish i => { w with sys := t, reported := w.reported || w.failing i }
  | _ => { w with sys := t }

def Watch.next (c : RxSetting) (w : Watch) (op : ReadOp) : Option Watch :=
  (readNext c w.sys op).map fun t => w.record t op

/-- With the flag up a section meets a malformed result before an EOP, unless an error
has been reported already; and the flag is not raised behind a call that clears it. -/
def reportsFirst (w : Watch) : ReadOp → Prop
  | .lock _ => w.sys.rx.ring.rxOverrun = true →
    w.reported = true ∨ sectionBytes w.sys.rx.ring.pending = none
  | .clear i => w.sys.rx.ring.rxOverrun = true →
    w.reported = true ∨ ((w.sys.rx.calls i).any fun call => call.late) = false
  | _ => True

/-- Well-formed slots that spare what is being copied, copies that succeed, and no
section that takes an overwritten slot for good. -/
def keepsData (w : Watch) : ReadOp → Prop
  | .fill x => x.WellFormed ∧ w.sys.sparesCopies 1
  | .copy _ uncopied => uncopied = 0
  | .lock _ => w.spoiled = true →
    w.reported = true ∨ sectionBytes w.sys.rx.ring.pending = none
  | _ => True

/-- Where the history stands: a failing call is on its way to return an error, and
with the flag up each call that will clear it has one behind it or is late. -/
structure Watch.Telling (w : Watch) : Prop where
  onePass : ∀ i, (w.sys.readers i).OnePass w.sys.eopFound
  since : w.raisedAt ≤ w.sys.returns.length
  failing : ∀ i, w.failing i = true → (w.sys.readers i).pc ≠ .idle →
    ((w.sys.readers i).pc = .testing ∨ (w.sys.readers i).pc = .resetting) ∧
      (w.sys.readers i).rcLen = -eIo
  reported : w.reported = true → w.told = true
  early : ∀ i call, w.sys.rx.calls i = some call → call.cleared = false → call.late = false →
    w.sys.rx.ring.rxOverrun = true → w.reported = true
  loud : w.silent = false

theorem Watch.opened_telling : Watch.opened.Telling where
  onePass _ := Reader.idle_onePass false
  since := Nat.zero_le _
  failing _ h := by cases h
  reported h := by cases h
  early _ _ h := by cases h
  loud := rfl

section telling

variable {c : RxSetting} {w : Watch} {t : ReadSystem} {op : ReadOp}

theorem Watch.told_returns {w' : Watch} (h : w.told = true) (hat : w'.raisedAt = w.raisedAt)
    (hsince : w.raisedAt ≤ w.sys.returns.length) {l : List Return}
    (hreturns : w'.sys.returns = w.sys.returns ++ l) : w'.told = true := by
  rw [told, hat, hreturns, List.drop_append_of_le_length hsince, List.any_append, Bool.or_eq_true]
  exact Or.inl h

theorem Watch.told_leave {w' : Watch} {ret : Return} (hrc : ret.rc < 0)
    (hat : w'.raisedAt = w.raisedAt) (hsince : w.raisedAt ≤ w.sys.returns.length)
    (hreturns : w'.sys.returns = w.sys.returns ++ [ret]) : w'.told = true := by
  rw [told, hat, hreturns, List.drop_append_of_le_length hsince, List.any_append, Bool.or_eq_true]
  exact Or.inr (by simpa using hrc)

theorem Watch.Telling.failing_step (h : w.Telling) (hstep : ReadStep c w.sys op t)
    (hlock : ∀ i, op ≠ .lock i) {i : Nat} (hf : w.failing i = true)
    (hstart : ∀ count, op ≠ .start i count) (hbusy : (t.readers i).pc ≠ .idle) :
    ((t.readers i).pc = .testing ∨ (t.readers i).pc = .resetting) ∧
      (t.readers i).rcLen = -eIo := by
  by_cases hi : op.reader = some i
  · cases hstep with
    | fill | service => cases hi
    | start =>
      obtain rfl := Option.some.inj hi
      exact absurd rfl (hstart _)
    | lock => exact absurd rfl (hlock _)
    | interrupted | finish =>
      obtain rfl := Option.some.inj hi
      simp [Reader.idle] at hbusy
    | test hpc =>
      obtain rfl := Option.some.inj hi
      have hflag := (h.onePass _).flagged (by rw [hpc]; rfl)
      have hrc := (h.failing _ hf (by simp [hpc])).2
      rw [ReadSystem.goto_self, if_pos hflag]
      exact ⟨Or.inr rfl,hrc⟩
    | wait hpc | again hpc | enter hpc | copy hpc | copyFails hpc | copied hpc | bump hpc | clear hpc
    | credit hpc =>
      obtain rfl := Option.some.inj hi
      have hold := (h.failing _ hf (by simp [hpc])).1
      simp [hpc] at hold
  · rw [hstep.others hi] at hbusy ⊢
    exact h.failing i hf hbusy

theorem Watch.Telling.early_step (h : w.Telling) (hstep : ReadStep c w.sys op t)
    (hlock : ∀ i, op ≠ .lock i) (hservice : op ≠ .service) {i : Nat} {call : CyclicCall}
    (hcall : t.rx.calls i = some call) (hopen : call.cleared = false) (hlate : call.late = false)
    (ho : t.rx.ring.rxOverrun = true) : w.reported = true := by
  cases hstep with
  | service => exact absurd rfl hservice
  | lock => exact absurd rfl (hlock _)
  | clear => cases ho
  | @copyFails k _ _ _ old _ _ hold | @copied k _ old _ hold =>
    by_cases hik : i = k
    · subst i
      simp only [ReadSystem.copy, ReadSystem.pass, RxSystem.copied, Function.update_self,
        Option.some.injEq] at hcall
      subst hcall
      exact h.early k old hold hopen hlate ho
    · simp only [ReadSystem.copy, ReadSystem.pass, RxSystem.copied,
        Function.update_of_ne hik] at hcall
      exact h.early i call hcall hopen hlate ho
  | @credit k =>
    by_cases hik : i = k
    · subst i
      simp [ReadSystem.credit, RxSystem.credit] at hcall
    · simp only [ReadSystem.credit, RxSystem.credit, Function.update_of_ne hik] at hcall
      exact h.early i call hcall hopen hlate ho
  | _ => exact h.early i call hcall hopen hlate ho

theorem Watch.Telling.quiet (h : w.Telling) (hc : c.creditMode = false)
    (hstep : ReadStep c w.sys op t) (hlock : ∀ i, op ≠ .lock i) (hservice : op ≠ .service)
    (hstart : ∀ i count, op ≠ .start i count) (hreturns : t.returns = w.sys.returns)
    (spoiled : Bool) : Watch.Telling { w with sys := t, spoiled := spoiled } where
  onePass := hstep.onePass hc h.onePass
  since := by
    simp only [hreturns]
    exact h.since
  failing i hf hbusy := h.failing_step hstep hlock hf (hstart i) hbusy
  reported hr := by
    have htold := h.reported hr
    simpa [told, hreturns] using htold
  early _ _ hcall hopen hlate ho := h.early_step hstep hlock hservice hcall hopen hlate ho
  loud := h.loud

theorem Watch.Telling.service (h : w.Telling) (hc : c.creditMode = false)
    (hstep : ReadStep c w.sys .service t) : (w.record t .service).Telling := by
  have honePass := hstep.onePass hc h.onePass
  have hreaders : ∀ i, t.readers i = w.sys.readers i := fun i => hstep.others (by simp [ReadOp.reader])
  cases hstep
  simp only [Watch.record]
  have hearly : ∀ i call, w.sys.rx.process.calls i = some call → call.cleared = false →
      call.late = false → w.sys.rx.process.ring.rxOverrun = true →
      w.sys.rx.ring.raises = false ∧ w.reported = true := by
    intro i call hcall hopen hlate ho
    rw [w.sys.rx.process_calls, Option.map_eq_some_iff] at hcall
    obtain ⟨old,hold,rfl⟩ := hcall
    simp only [Bool.or_eq_false_iff] at hlate
    refine ⟨hlate.2,h.early i old hold hopen hlate.1 ?_⟩
    have hquiet := hlate.2
    have hup : w.sys.rx.ring.process.ring.rxOverrun = true := ho
    simpa [RxRing.raises, hup] using hquiet
  by_cases hraises : w.sys.rx.ring.raises = true
  · rw [if_pos hraises]
    refine ⟨honePass,Nat.le_refl _,fun i hf hbusy => ?_,fun hr => (by cases hr),
      fun i call hcall hopen hlate ho => ?_,h.loud⟩
    · simp only [hreaders] at hbusy ⊢
      exact h.failing i hf hbusy
    · have hnot := (hearly i call hcall hopen hlate ho).1
      rw [hraises] at hnot
      cases hnot
  · rw [if_neg hraises]
    refine ⟨honePass,h.since,fun i hf hbusy => ?_,h.reported,
      fun i call hcall hopen hlate ho => (hearly i call hcall hopen hlate ho).2,h.loud⟩
    simp only [hreaders] at hbusy ⊢
    exact h.failing i hf hbusy

theorem Watch.Telling.lock (h : w.Telling) (hc : c.creditMode = false) {i : Nat}
    (hok : reportsFirst w (.lock i)) (hstep : ReadStep c w.sys (.lock i) t) :
    (w.record t (.lock i)).Telling := by
  have honePass := hstep.onePass hc h.onePass
  have hothers : ∀ j, j ≠ i → t.readers j = w.sys.readers j := fun j hj =>
    hstep.others fun hi => hj (Option.some.inj hi).symm
  have hbytes := complete_bytes w.sys.rx.ring
  cases hstep with
  | lock hpc =>
    have hrcLen := ((h.onePass i).fresh (by rw [hpc]; rfl)).1
    have hover := w.sys.rx.ring.complete_spec.1.overrun
    have hkept : (w.sys.rx.lock i).ring.rxOverrun = w.sys.rx.ring.rxOverrun := hover
    refine ⟨honePass,h.since,fun j hf hbusy => ?_,h.reported,fun j call hcall hopen hlate ho => ?_,
      h.loud⟩
    · by_cases hj : j = i
      · subst j
        simp only [Watch.record, Function.update_self, hbytes] at hf
        cases hfault : w.sys.rx.ring.complete.fault with
        | false => simp [hfault] at hf
        | true => simp [Watch.record, ReadSystem.lock, hfault, hrcLen]
      · simp only [Watch.record, Function.update_of_ne hj] at hf hbusy ⊢
        rw [hothers j hj] at hbusy ⊢
        exact h.failing j hf hbusy
    · have hup : w.sys.rx.ring.rxOverrun = true := hkept ▸ ho
      cases hfault : w.sys.rx.ring.complete.fault with
      | true =>
        have hsame : (w.sys.rx.lock i).calls = w.sys.rx.calls := by simp [RxSystem.lock, hfault]
        refine h.early j call ?_ hopen hlate hup
        rw [← hsame]
        exact hcall
      | false =>
        rw [hfault] at hbytes
        exact (hok hup).resolve_right (by simp [hbytes])

theorem Watch.Telling.clear (h : w.Telling) (hc : c.creditMode = false) {i : Nat}
    (hok : reportsFirst w (.clear i)) (hstep : ReadStep c w.sys (.clear i) t) :
    (w.record t (.clear i)).Telling := by
  have hreturns : t.returns = w.sys.returns := by
    cases hstep
    rfl
  have hquiet := h.quiet hc hstep (fun _ hl => by cases hl) (fun hl => by cases hl)
    (fun _ _ hl => by cases hl) hreturns w.spoiled
  refine ⟨hquiet.onePass,hquiet.since,hquiet.failing,hquiet.reported,hquiet.early,?_⟩
  simp only [Watch.record, Bool.or_eq_false_iff, Bool.and_eq_false_iff, Bool.not_eq_false']
  refine ⟨h.loud,?_⟩
  cases ho : w.sys.rx.ring.rxOverrun with
  | false => exact Or.inl rfl
  | true =>
    refine Or.inr (h.reported ?_)
    cases hstep with
    | clear _ hcall hopen =>
      rcases hok ho with hr | hlate
      · exact hr
      · rw [hcall] at hlate
        exact h.early i _ hcall hopen hlate ho

theorem Watch.Telling.start (h : w.Telling) (hc : c.creditMode = false) {i count : Nat}
    (hstep : ReadStep c w.sys (.start i count) t) : (w.record t (.start i count)).Telling := by
  have hreturns : t.returns = w.sys.returns := by
    cases hstep
    rfl
  refine ⟨hstep.onePass hc h.onePass,?_,fun j hf hbusy => ?_,fun hr => ?_,
    fun j call hcall hopen hlate ho => ?_,h.loud⟩
  · simp only [Watch.record, hreturns]
    exact h.since
  · by_cases hj : j = i
    · subst j
      simp [Watch.record] at hf
    · simp only [Watch.record, Function.update_of_ne hj] at hf
      refine h.failing_step hstep (fun _ hl => by cases hl) hf (fun _ hl => ?_) hbusy
      cases hl
      exact hj rfl
  · have htold := h.reported hr
    simpa [told, Watch.record, hreturns] using htold
  · exact h.early_step hstep (fun _ hl => by cases hl) (fun hl => by cases hl) hcall hopen hlate ho

theorem Watch.Telling.check (h : w.Telling) (hc : c.creditMode = false) {i : Nat}
    (hstep : ReadStep c w.sys (.check i) t) : (w.record t (.check i)).Telling := by
  have hquiet : t.returns = w.sys.returns → (w.record t (.check i)).Telling := by
    intro hreturns
    have hsame : w.record t (.check i) = { w with sys := t, spoiled := w.spoiled } := by
      simp [Watch.record, hreturns]
    rw [hsame]
    exact h.quiet hc hstep (fun _ hl => by cases hl) (fun hl => by cases hl)
      (fun _ _ hl => by cases hl) hreturns w.spoiled
  have hold := hstep
  cases hstep with
  | again => exact hquiet rfl
  | enter => exact hquiet rfl
  | @interrupted _ rc hpc hrc =>
    have hneg := lt_of_le_of_ne ((h.onePass i).signal _ hpc) hrc
    have hlater : (w.record (w.sys.leave i rc) (.check i)).reported = true := by
      simp [Watch.record, ReadSystem.leave]
    refine ⟨hold.onePass hc h.onePass,?_,fun j hf hbusy => ?_,fun _ => ?_,fun _ _ _ _ _ _ => hlater,
      h.loud⟩
    · simp only [Watch.record, ReadSystem.leave, List.length_append]
      exact Nat.le_add_right_of_le h.since
    · exact h.failing_step hold (fun _ hl => by cases hl) hf (fun _ hl => by cases hl) hbusy
    · exact Watch.told_leave (w := w) hneg rfl h.since rfl

theorem Watch.Telling.finish (h : w.Telling) (hc : c.creditMode = false) {i : Nat}
    (hstep : ReadStep c w.sys (.finish i) t) : (w.record t (.finish i)).Telling := by
  have hold := hstep
  cases hstep with
  | finish hpc =>
    refine ⟨hold.onePass hc h.onePass,?_,fun j hf hbusy => ?_,fun hr => ?_,
      fun j call hcall hopen hlate ho => ?_,h.loud⟩
    · simp only [Watch.record, ReadSystem.finish, ReadSystem.leave, List.length_append]
      exact Nat.le_add_right_of_le h.since
    · exact h.failing_step hold (fun _ hl => by cases hl) hf (fun _ hl => by cases hl) hbusy
    · simp only [Watch.record, Bool.or_eq_true] at hr
      rcases hr with hr | hf
      · exact Watch.told_returns (h.reported hr) rfl h.since rfl
      · have hrc := (h.failing i hf (by simp [hpc])).2
        have hneg : (w.sys.readers i).rcLen < 0 := by
          rw [hrc]
          decide
        exact Watch.told_leave (w := w) hneg rfl h.since rfl
    · have hr := h.early_step hold (fun _ hl => by cases hl) (fun hl => by cases hl) hcall hopen hlate
        ho
      simp [Watch.record, hr]

theorem Watch.Telling.step (h : w.Telling) (hc : c.creditMode = false) (hok : reportsFirst w op)
    (hstep : ReadStep c w.sys op t) : (w.record t op).Telling := by
  have hquiet : (∀ i, op ≠ .lock i) → op ≠ .service → (∀ i count, op ≠ .start i count) →
      t.returns = w.sys.returns → ∀ b, Watch.Telling { w with sys := t, spoiled := b } :=
    fun hlock hservice hstart hreturns b => h.quiet hc hstep hlock hservice hstart hreturns b
  cases op with
  | fill x =>
    refine hquiet (by simp) (by simp) (by simp) ?_ _
    cases hstep
    rfl
  | service => exact h.service hc hstep
  | start i count => exact h.start hc hstep
  | check i => exact h.check hc hstep
  | lock i => exact h.lock hc hok hstep
  | clear i => exact h.clear hc hok hstep
  | finish i => exact h.finish hc hstep
  | _ =>
    refine hquiet (by simp) (by simp) (by simp) ?_ _
    cases hstep <;> rfl

end telling

structure ReadSystem.Uninterrupted (s : ReadSystem) : Prop where
  first : s.returns.flatMap Return.took <+: s.sent
  delivers : ∀ ret ∈ s.returns, 0 ≤ ret.rc → ret.Delivers ret.took

structure Watch.Failed (w : Watch) : Prop extends w.sys.Uninterrupted where
  failing : w.failing 0 = true
  busy : (w.sys.readers 0).pc ≠ .idle
  absent : ∀ i, 1 ≤ i → w.sys.readers i = .idle

/-- The reader has what it took, and the ring what it is still to take, unless the
device has overwritten some of that. -/
structure Watch.Fine (w : Watch) : Prop extends w.sys.Reading 1, w.sys.Sole where
  formed : ∀ x ∈ w.sys.sent, x.WellFormed
  stored : w.spoiled = false → w.sys.Stored

def Watch.Kept (w : Watch) : Prop := (∃ ret ∈ w.sys.returns, ret.rc < 0) ∨ w.Failed ∨ w.Fine

theorem Watch.opened_kept : Watch.opened.Kept := by
  refine Or.inr (Or.inr ⟨ReadSystem.opened_reading 1 false,ReadSystem.opened_sole false,?_,fun _ => ?_⟩)
  · simp [Watch.opened, ReadSystem.opened]
  · exact ReadSystem.opened_stored false

theorem Watch.told_mem {w : Watch} (h : w.told = true) : ∃ ret ∈ w.sys.returns, ret.rc < 0 := by
  obtain ⟨ret,hret,hrc⟩ := List.any_eq_true.mp h
  exact ⟨ret,List.mem_of_mem_drop hret,by simpa using hrc⟩

theorem Watch.record_sys (w : Watch) (t : ReadSystem) (op : ReadOp) : (w.record t op).sys = t := by
  cases op with
  | service =>
    simp only [Watch.record]
    split <;> rfl
  | _ => rfl

theorem ReadStep.returns_kept {c : RxSetting} {s t : ReadSystem} {op : ReadOp}
    (h : ReadStep c s op t) {ret : Return} (hret : ret ∈ s.returns) : ret ∈ t.returns := by
  cases h with
  | interrupted | finish => exact List.mem_append_left _ hret
  | _ => exact hret

theorem Watch.Fine.uninterrupted {w : Watch} (h : w.Fine) : w.sys.Uninterrupted :=
  ⟨(List.prefix_append ..).trans (h.taken ▸ List.take_prefix ..),h.returns⟩

section kept

variable {c : RxSetting} {w : Watch} {t : ReadSystem} {op : ReadOp}

theorem Watch.Failed.step (h : w.Failed) (htelling : w.Telling) (hone : c.readers = 1)
    (hstep : ReadStep c w.sys op t) : (w.record t op).Kept := by
  have hsole : ∀ {i : Nat} {pc : ReadPc}, (w.sys.readers i).pc = pc → pc ≠ .idle → i = 0 := by
    intro i pc hpc hbusy
    by_contra hi
    rw [h.absent i (by omega)] at hpc
    exact hbusy hpc.symm
  obtain ⟨hpc₀,hrcLen⟩ := htelling.failing 0 h.failing h.busy
  cases hstep with
  | fill =>
    refine Or.inr (Or.inl ⟨⟨h.first.trans (List.prefix_append ..),h.delivers⟩,h.failing,h.busy,
      h.absent⟩)
  | service =>
    refine Or.inr (Or.inl ?_)
    simp only [Watch.record]
    split <;> exact ⟨⟨h.first,h.delivers⟩,h.failing,h.busy,h.absent⟩
  | @start i _ hi hpc =>
    obtain rfl : i = 0 := by omega
    exact absurd hpc h.busy
  | @test i hpc =>
    obtain rfl := hsole hpc (by simp)
    refine Or.inr (Or.inl ⟨⟨h.first,h.delivers⟩,h.failing,?_,fun j hj => ?_⟩)
    · simp only [Watch.record, ReadSystem.goto_self]
      split <;> simp
    · have hne : j ≠ 0 := by omega
      simpa [Watch.record, ReadSystem.goto, ReadSystem.setReader, hne] using h.absent j hj
  | @finish i hpc =>
    obtain rfl := hsole hpc (by simp)
    refine Or.inl ⟨⟨(w.sys.readers 0).rcLen,(w.sys.readers 0).user,(w.sys.readers 0).took⟩,?_,?_⟩
    · simp [Watch.record, ReadSystem.finish, ReadSystem.leave]
    · have hneg : -eIo < 0 := by decide
      exact hrcLen.trans_lt hneg
  | wait hpc | again hpc | interrupted hpc | enter hpc | lock hpc | copy hpc | copyFails hpc
  | copied hpc | bump hpc | clear hpc | credit hpc =>
    obtain rfl := hsole hpc (by simp)
    simp [hpc] at hpc₀

theorem Watch.Fine.fail (h : w.Fine) (hbytes : sectionBytes w.sys.rx.ring.pending = none) :
    (w.record (w.sys.lock 0 (w.sys.rx.lock 0)) (.lock 0)).Failed := by
  have hfault : w.sys.rx.ring.complete.fault = true := by
    rw [complete_bytes] at hbytes
    by_contra hf
    simp [hf] at hbytes
  have hbefore := h.uninterrupted
  refine ⟨⟨hbefore.first,hbefore.delivers⟩,?_,?_,fun j hj => ?_⟩
  · simp [Watch.record, hbytes]
  · simp [Watch.record, ReadSystem.lock, hfault]
  · have hne : j ≠ 0 := by omega
    simpa [Watch.record, ReadSystem.lock, hne] using h.absent j hj

theorem Watch.Fine.go (h : w.Fine) (htelling : w.Telling) (hone : c.readers = 1)
    (hdata : keepsData w op)
    (hlock : ∀ i, op = .lock i → w.sys.Stored ∧ w.sys.rx.ring.rxOverrun = false)
    (hclear : ∀ i, op = .clear i → w.sys.rx.ring.rxOverrun = false)
    (hstep : ReadStep c w.sys op t) : (w.record t op).Fine := by
  have hcopies : keepsCopies 1 w.sys op := by
    cases op with
    | fill x => exact hdata
    | copy i uncopied => exact ⟨hdata,h.toSole.inPlace h.toReading i⟩
    | _ => trivial
  have hreading : t.Reading 1 := by
    have hr := h.toReading
    rw [← hone] at hr hcopies ⊢
    exact hr.step hcopies hlock hstep
  have hsole := h.toSole.step hone h.toReading hcopies hlock
    (h.toSole.short_lt h.formed (htelling.onePass 0).short) hstep
  refine ⟨(w.record_sys t op).symm ▸ hreading,(w.record_sys t op).symm ▸ hsole,?_,fun hs => ?_⟩
  · rw [w.record_sys t op]
    cases hstep with
    | fill =>
      intro y hy
      simp only [ReadSystem.fill, List.mem_append, List.mem_singleton] at hy
      rcases hy with hy | rfl
      · exact h.formed y hy
      · exact hdata.1
    | _ => exact h.formed
  · rw [w.record_sys t op]
    have hbefore : w.spoiled = false := by
      cases op with
      | fill x =>
        simp only [Watch.record, Bool.or_eq_false_iff] at hs
        exact hs.1
      | service =>
        simp only [Watch.record] at hs
        split at hs <;> exact hs
      | _ => exact hs
    refine (h.stored hbefore).step ?_ ?_ hstep
    · rintro x rfl
      simp only [Watch.record, Bool.or_eq_false_iff, Bool.not_eq_false', decide_eq_true_eq] at hs
      exact ⟨hdata.1,hs.2⟩
    · rintro i (rfl | rfl)
      · exact (hlock i rfl).2
      · exact hclear i rfl

theorem Watch.Fine.step (h : w.Fine) (htelling : w.Telling) (hone : c.readers = 1)
    (hok : reportsFirst w op) (hdata : keepsData w op) (hstep : ReadStep c w.sys op t) :
    (w.record t op).Kept := by
  have hnegative : w.reported = true → (w.record t op).Kept := by
    intro hr
    obtain ⟨ret,hret,hneg⟩ := Watch.told_mem (htelling.reported hr)
    refine Or.inl ⟨ret,?_,hneg⟩
    rw [w.record_sys t op]
    exact hstep.returns_kept hret
  cases op with
  | lock i =>
    have hfails : w.reported = true ∨ sectionBytes w.sys.rx.ring.pending = none →
        (w.record t (.lock i)).Kept := by
      rintro (hr | hbytes)
      · exact hnegative hr
      · cases hstep with
        | lock hpc =>
          obtain rfl := h.toReading.sole hpc (by simp)
          exact Or.inr (Or.inl (h.fail hbytes))
    cases ho : w.sys.rx.ring.rxOverrun with
    | true => exact hfails (hok ho)
    | false =>
      cases hs : w.spoiled with
      | true => exact hfails (hdata hs)
      | false =>
        refine Or.inr (Or.inr (h.go htelling hone hdata ?_ (fun _ hl => by cases hl) hstep))
        exact fun _ _ => ⟨h.stored hs,ho⟩
  | clear i =>
    cases ho : w.sys.rx.ring.rxOverrun with
    | false =>
      exact Or.inr (Or.inr (h.go htelling hone hdata (fun _ hl => by cases hl) (fun _ _ => ho) hstep))
    | true =>
      refine hnegative ?_
      cases hstep with
      | clear _ hcall hopen =>
        rcases hok ho with hr | hlate
        · exact hr
        · rw [hcall] at hlate
          exact htelling.early i _ hcall hopen hlate ho
  | _ =>
    exact Or.inr (Or.inr (h.go htelling hone hdata (fun _ hl => by cases hl) (fun _ hl => by cases hl)
      hstep))

theorem Watch.Kept.step (h : w.Kept) (htelling : w.Telling) (hone : c.readers = 1)
    (hok : reportsFirst w op) (hdata : keepsData w op) (hstep : ReadStep c w.sys op t) :
    (w.record t op).Kept := by
  rcases h with ⟨ret,hret,hneg⟩ | hfailed | hfine
  · refine Or.inl ⟨ret,?_,hneg⟩
    rw [w.record_sys t op]
    exact hstep.returns_kept hret
  · exact hfailed.step htelling hone hstep
  · exact hfine.step htelling hone hok hdata hstep

end kept

section runs

variable {c : RxSetting} {w v : Watch} {op : ReadOp}

theorem Watch.next_step (h : w.next c op = some v) :
    ∃ t, ReadStep c w.sys op t ∧ v = w.record t op := by
  obtain ⟨t,ht,rfl⟩ := Option.map_eq_some_iff.mp h
  exact ⟨t,readNext_step ht,rfl⟩

end runs

/-- No call clears a raised flag before a read has failed; and as long as none has,
the reads deliver what was sent from its start on. -/
theorem run_reportsOverrun {n : Nat} {ops : List ReadOp} {w : Watch}
    (r : Run (stepOf (Watch.next ⟨false,n,fun _ => true⟩)) reportsFirst .opened ops w) :
    w.silent = false ∧
    (n = 1 → Run (stepOf (Watch.next ⟨false,n,fun _ => true⟩)) keepsData .opened ops w →
      (∀ ret ∈ w.sys.returns, 0 ≤ ret.rc) → w.sys.Uninterrupted) := by
  have htelling : w.Telling := r.invariant Watch.Telling Watch.opened_telling fun w op v h hok hn => by
    obtain ⟨t,hstep,rfl⟩ := Watch.next_step hn
    exact h.step rfl hok hstep
  refine ⟨htelling.loud,fun hone hdata hpos => ?_⟩
  have hkept : w.Telling ∧ w.Kept := (r.both hdata).invariant (fun w => w.Telling ∧ w.Kept)
    ⟨Watch.opened_telling,Watch.opened_kept⟩ fun w op v h hok hn => by
      obtain ⟨t,hstep,rfl⟩ := Watch.next_step hn
      exact ⟨h.1.step rfl hok.1 hstep,h.2.step h.1 hone hok.1 hok.2 hstep⟩
  rcases hkept.2 with ⟨ret,hret,hneg⟩ | hfailed | hfine
  · have := hpos ret hret
    omega
  · exact hfailed.toUninterrupted
  · exact hfine.uninterrupted

instance (w : Watch) : (op : ReadOp) → Decidable (reportsFirst w op)
  | .lock _ | .clear _ => inferInstanceAs (Decidable (_ → _))
  | .fill _ | .service | .start .. | .wait .. | .check _ | .copy .. | .copied _ | .bump _
  | .credit _ | .test _ | .finish _ => inferInstanceAs (Decidable True)

instance (w : Watch) : (op : ReadOp) → Decidable (keepsData w op)
  | .fill _ => inferInstanceAs (Decidable (_ ∧ _))
  | .copy .. => inferInstanceAs (Decidable (_ = _))
  | .lock _ => inferInstanceAs (Decidable (_ → _))
  | .service | .start .. | .wait .. | .check _ | .copied _ | .bump _ | .clear _ | .credit _
  | .test _ | .finish _ => inferInstanceAs (Decidable True)

def slotReadOps (x : Slot) : List ReadOp :=
  [.fill x,.service,.start 0 4096,.wait 0 false,.check 0,.lock 0,.copy 0 0,.bump 0,.copied 0,
    .clear 0,.credit 0,.test 0,.finish 0]

def errorFirstOps : List ReadOp :=
  slotReadOps ⟨⟨0x52B40001,1⟩,[7]⟩ ++ List.replicate 256 (.fill ⟨⟨0x52B40000,1⟩,[8]⟩) ++
    [.service,.start 0 4096,.wait 0 false,.check 0,.lock 0,.test 0,.finish 0,
      .fill ⟨⟨0x52B40001,1⟩,[9]⟩] ++ slotReadOps ⟨⟨0x52B40001,1⟩,[10]⟩

def watched (ops : List ReadOp) : Watch :=
  replay (Watch.next ⟨false,1,fun _ => true⟩) .opened ops

theorem run_reportsOverrun_errorFirst :
    (watched errorFirstOps).silent = false ∧
    (watched errorFirstOps).sys.returns.map Return.rc = [1,-5,1] ∧
    (watched (slotReadOps ⟨⟨0x52B40001,1⟩,[7]⟩)).sys.Uninterrupted := by
  have hlong : endsIn (Watch.next ⟨false,1,fun _ => true⟩) reportsFirst
      (fun w => w.sys.returns.map Return.rc == [1,-5,1]) .opened errorFirstOps = true := by
    decide +kernel
  have hshort : Run (stepOf (Watch.next ⟨false,1,fun _ => true⟩)) reportsFirst .opened
      (slotReadOps ⟨⟨0x52B40001,1⟩,[7]⟩) (watched (slotReadOps ⟨⟨0x52B40001,1⟩,[7]⟩)) :=
    replay_ok (by decide)
  obtain ⟨hrun,hreturns⟩ := replay_ends hlong
  rw [← watched] at hrun hreturns
  refine ⟨(run_reportsOverrun hrun).1,beq_iff_eq.mp hreturns,?_⟩
  exact (run_reportsOverrun hshort).2 rfl (replay_ok (by decide)) (by decide)

def silentOps : List ReadOp :=
  List.replicate 256 (.fill ⟨⟨0x52B40001,1⟩,[7]⟩) ++
    [.service,.start 0 4096,.wait 0 false,.check 0,.lock 0,.copy 0 0,.bump 0,.copied 0,.clear 0]

theorem overrun_clearedSilently : ¬ ∀ ops w,
    Run (stepOf (Watch.next ⟨false,1,fun _ => true⟩)) anyStep .opened ops w → w.silent = false := by
  intro h
  have hsilent : endsIn (Watch.next ⟨false,1,fun _ => true⟩) anyStep (fun w => w.silent) .opened
      silentOps = true := by decide +kernel
  obtain ⟨hrun,hend⟩ := replay_ends hsilent
  rw [← watched] at hrun hend
  have hloud := h silentOps (watched silentOps) hrun
  exact Bool.false_ne_true (hloud.symm.trans hend)

end DmaCamera
