import DmaCamera.Pipeline
set_option autoImplicit false

namespace DmaCamera
open Countdown Runs

theorem InStep.progress_le {s : Pipeline} (h : InStep s) :
    s.progress ≤ (s.driver.descriptors s.driver.engine.transferList).length := by
  unfold Pipeline.progress
  cases hlist : s.driver.engine.transferList with
  | nil => simp
  | cons t rest =>
    have hle := (h.head t rest hlist).completed_le
    rw [descriptors_cons, List.length_append, descriptors_length, if_neg (List.cons_ne_nil t rest)]
    omega

theorem InStep.execute {s t : Pipeline} {p : Params} (h : InStep s)
    (hstep : pipeNext p s .execute = some t) : InStep t := by
  simp only [pipeNext, Option.ite_none_right_eq_some, Option.some.injEq] at hstep
  obtain ⟨hbusy,rfl⟩ := hstep
  cases hlist : s.driver.engine.transferList with
  | nil =>
    have hidle := (h.idle hlist).1
    rw [hbusy] at hidle
    cases hidle
  | cons u rest =>
    have hmem : u ∈ s.driver.engine.transferList := by rw [hlist]; exact List.mem_cons_self ..
    have hexec := h.head u rest hlist
    obtain ⟨hdesc,hnext⟩ := hexec.execute (h.linked u hmem) (h.tables u hmem) hbusy
    have hlt := (hexec.busy hbusy).2.1
    refine ⟨h.order,h.linked,h.tables,fun hnil => ?_,fun v vs hcons => ?_,h.completed,h.submitted,
      ?_⟩
    · exact absurd (hlist.symm.trans hnil) (List.cons_ne_nil u rest)
    · obtain ⟨rfl,rfl⟩ : u = v ∧ rest = vs := List.cons.inj (hlist.symm.trans hcons)
      exact hnext
    · have hget : (s.driver.descriptors (u :: rest))[s.device.completed]? =
          some ((s.driver.transfers u).descVirt s.device.completed) := by
        rw [descriptors_cons, List.getElem?_append_left (by rwa [descriptors_length]),
          XdmaTransfer.descriptors, List.getElem?_map, List.getElem?_range hlt]
        rfl
      have hbefore : s.progress = s.device.completed := by
        rw [Pipeline.progress, hlist, if_neg (List.cons_ne_nil u rest)]
      have hexecuted := h.executed
      rw [hbefore, hlist] at hexecuted
      simp only [Pipeline.progress, hlist, if_neg (List.cons_ne_nil u rest), execute_completed]
      rw [hdesc, List.take_add_one, hget, hexecuted, List.append_assoc]
      rfl

structure TableLoaded (d : Driver) (tables : U64 → XdmaDesc) : Prop where
  order : InOrder d
  linked : ∀ t ∈ d.engine.transferList, Linked (d.transfers t)
  tables : ∀ t ∈ d.engine.transferList, Holds tables (d.transfers t)
  completed : ∀ t ∈ d.removed, d.state t = .completed
  submitted : ∀ t ∈ d.engine.transferList, d.state t = .submitted

theorem Pipeline.restarted {s : Pipeline} {d : Driver} {t : TransferId}
    (hstarted : d.started = s.driver.started ++ [t]) :
    (s.afterCall d).device = .start d.engine.sgdmaRegs ∧ (s.afterCall d).progress = 0 := by
  have hne : ¬ d.started = s.driver.started := by simp [hstarted]
  have hdev : (s.afterCall d).device = .start d.engine.sgdmaRegs := if_neg hne
  refine ⟨hdev,?_⟩
  rw [Pipeline.progress, hdev]
  split <;> rfl

theorem TableLoaded.started {s : Pipeline} {d : Driver} {t : TransferId} {rest : List TransferId}
    (h : TableLoaded d s.tables) (hstarts : StartsHead s.driver d)
    (hlist : d.engine.transferList = t :: rest) (hstarted : d.started = s.driver.started ++ [t])
    (hexec : s.executed = d.descriptors d.removed) : InStep (s.afterCall d) := by
  obtain ⟨hdev,hprogress⟩ := s.restarted hstarted
  have hregs : d.engine.sgdmaRegs = firstDescRegs (d.transfers t) := by
    rcases hstarts with hsame | ⟨u,hhead,_,hregs⟩
    · exact absurd (hstarted.symm.trans hsame) (by simp)
    · rw [hlist] at hhead
      cases hhead
      exact hregs
  rw [hregs] at hdev
  have hmem : t ∈ d.engine.transferList := by rw [hlist]; exact List.mem_cons_self ..
  refine ⟨h.order,h.linked,h.tables,fun hnil => ?_,fun u us hcons => ?_,h.completed,h.submitted,?_⟩
  · exact absurd (hlist.symm.trans hnil) (List.cons_ne_nil t rest)
  · obtain ⟨rfl,rfl⟩ : t = u ∧ rest = us := List.cons.inj (hlist.symm.trans hcons)
    rw [hdev]
    exact Executing.start (h.linked t hmem)
  · rw [hprogress, List.take_zero, List.append_nil]
    exact hexec

theorem TableLoaded.queued {s : Pipeline} {d : Driver} {x : LinkedTransfer} (h : InStep s)
    (hnext : InOrder d) (hfresh : freshTable s (.submit x))
    (hq : Queued (s.driver.submit x.toPlainTransfer) s.driver.queued.length d) :
    TableLoaded d (writeTable s.tables x.transfer) ∧
      ∀ v ∈ s.driver.queued, d.transfers v = s.driver.transfers v := by
  have hsound := h.order.sound
  have hlist : d.engine.transferList = s.driver.engine.transferList ++ [s.driver.queued.length] :=
    hq.same.transferList
  have hremoved : d.removed = s.driver.removed := hq.removed
  have hold : ∀ v ∈ s.driver.queued, d.transfers v = s.driver.transfers v :=
    fun v hv => hq.old (hsound.newId hv)
  have hlisted : ∀ v ∈ s.driver.engine.transferList, d.transfers v = s.driver.transfers v :=
    fun v hv => hold v (by rw [hsound.order]; exact List.mem_append_right _ hv)
  have hnew : x.transfer.SameDescriptors (d.transfers s.driver.queued.length) := by
    rw [hq.new]
    exact ⟨rfl,rfl,rfl,rfl⟩
  refine ⟨⟨hnext,fun v hv => ?_,fun v hv => ?_,fun v hv => ?_,fun v hv => ?_⟩,hold⟩
  · rcases List.mem_append.mp (hlist ▸ hv) with hv | hv
    · rw [hlisted v hv]
      exact h.linked v hv
    · rw [List.mem_singleton.mp hv]
      exact hnew.linked x.linked
  · rcases List.mem_append.mp (hlist ▸ hv) with hv | hv
    · rw [hlisted v hv]
      intro i hi
      have hkept := @writeTable_frame _ s.tables _ fun j hj => hfresh v hv i hi j hj
      exact hkept.trans (h.tables v hv i hi)
    · rw [List.mem_singleton.mp hv]
      exact hnew.holds (writeTable_holds x.linked s.tables)
  · have hv : v ∈ s.driver.removed := hremoved ▸ hv
    rw [Driver.state, hold v (by rw [hsound.order]; exact List.mem_append_left _ hv)]
    exact h.completed v hv
  · rcases List.mem_append.mp (hlist ▸ hv) with hv | hv
    · rw [Driver.state, hlisted v hv]
      exact h.submitted v hv
    · rw [List.mem_singleton.mp hv, Driver.state, hq.new]
      rfl

theorem InStep.submit {s t : Pipeline} {p : Params} {x : LinkedTransfer} (h : InStep s)
    (hfresh : freshTable s (.submit x)) (hstep : pipeNext p s (.submit x) = some t) : InStep t := by
  unfold pipeNext at hstep
  cases hcall : applyOp p s.driver (.queue x.toPlainTransfer) with
  | error f => simp [hcall] at hstep
  | ok r =>
    obtain ⟨d,rc⟩ := r
    simp only [hcall, Option.some.injEq] at hstep
    subst hstep
    have hop : opStep p s.driver (.queue x.toPlainTransfer) d := ⟨rc,hcall⟩
    have hclean : stoppedCleanly s.driver (.queue x.toPlainTransfer) := trivial
    have hsound := h.order.sound
    have hq := opStep_queue hsound hop
    obtain ⟨hload,hold⟩ := TableLoaded.queued h (h.order.step hclean hop) hfresh hq
    have hlist : d.engine.transferList = s.driver.engine.transferList ++ [s.driver.queued.length] :=
      hq.same.transferList
    have hremoved : d.removed = s.driver.removed := hq.removed
    have hstarted : d.started = s.driver.started ++ if s.driver.engine.running then [] else
      (s.driver.engine.transferList ++ [s.driver.queued.length]).head?.toList := hq.started
    have hsame (ts : List TransferId) (hts : ∀ v ∈ ts, v ∈ s.driver.queued) :
        d.descriptors ts = s.driver.descriptors ts :=
      descriptors_congr fun v hv => by rw [hold v (hts v hv)]; exact .refl _
    have hgone : d.descriptors d.removed = s.driver.descriptors s.driver.removed := by
      rw [hremoved]
      exact hsame _ fun v hv => by rw [hsound.order]; exact List.mem_append_left _ hv
    cases hrun : s.driver.engine.running with
    | false =>
      have hnil := hsound.idle hrun
      rw [hnil, List.nil_append] at hlist
      rw [hrun, hnil] at hstarted
      have hexec := h.executed
      rw [hnil] at hexec
      refine hload.started (opStep_startsHead hsound hop) hlist hstarted ?_
      rw [hgone]
      exact hexec.trans (by simp [Driver.descriptors])
    | true =>
      obtain ⟨u,us,hcons⟩ := List.exists_cons_of_ne_nil (h.order.nonempty hrun)
      rw [hrun, if_pos rfl, List.append_nil] at hstarted
      have hkeep : ((s.withTable x.transfer).afterCall d).device = s.device := if_pos hstarted
      have hlist' : d.engine.transferList = u :: (us ++ [s.driver.queued.length]) := by
        rw [hlist, hcons]
        rfl
      have hold' := hold u (by
        rw [hsound.order, hcons]
        exact List.mem_append_right _ (List.mem_cons_self ..))
      refine ⟨hload.order,hload.linked,hload.tables,fun hnil => ?_,fun v vs hv => ?_,
        hload.completed,hload.submitted,?_⟩
      · exact absurd (hlist'.symm.trans hnil) (List.cons_ne_nil _ _)
      · obtain ⟨rfl,rfl⟩ := List.cons.inj (hlist'.symm.trans hv)
        rw [hkeep, afterCall_driver, hold']
        exact h.head _ us hcons
      · have hprogress : ((s.withTable x.transfer).afterCall d).progress = s.progress := by
          rw [Pipeline.progress, Pipeline.progress, hkeep, afterCall_driver, hlist', hcons,
            if_neg (List.cons_ne_nil _ _), if_neg (List.cons_ne_nil _ _)]
        have hall : d.descriptors d.engine.transferList =
            s.driver.descriptors s.driver.engine.transferList ++
              d.descriptors [s.driver.queued.length] := by
          rw [hlist, Driver.descriptors, List.flatMap_append]
          exact congrArg (· ++ _) (hsame _ fun v hv => by
            rw [hsound.order]
            exact List.mem_append_right _ hv)
        rw [hprogress, afterCall_driver, hgone, hall, List.take_append_of_le_length h.progress_le]
        exact h.executed

theorem InStep.interrupted {s : Pipeline} (h : InStep s) (hirq : s.device.irq = true) :
    s.driver.engine.transferList ≠ [] ∧
      stoppedCleanly s.driver (.service 0 s.device.reads) ∧
      ∀ u us, s.driver.engine.transferList = u :: us → s.device.busy = false ∧
        s.device.completed = s.driver.need u ∧
        s.device.reads.completedDescCount.toNat = s.driver.need u := by
  have hne : s.driver.engine.transferList ≠ [] := fun hnil => by
    have hidle := (h.idle hnil).2
    rw [hirq] at hidle
    cases hidle
  have hstop : ∀ u us, s.driver.engine.transferList = u :: us → s.device.busy = false ∧
      s.device.completed = s.driver.need u ∧
      s.device.reads.completedDescCount.toNat = s.driver.need u := by
    intro u us hcons
    have hexec := h.head u us hcons
    have hsmall := (h.linked u (by rw [hcons]; exact List.mem_cons_self ..)).small
    cases hbusy : s.device.busy with
    | true =>
      have hno := (hexec.busy hbusy).1
      rw [hirq] at hno
      cases hno
    | false =>
      have hcount := (hexec.stopped hbusy).2
      refine ⟨rfl,hcount,?_⟩
      rw [DmaDevice.reads, BitVec.toNat_ofNat, hcount]
      exact Nat.mod_eq_of_lt (by omega)
  refine ⟨hne,⟨rfl,fun _ => ?_⟩,hstop⟩
  obtain ⟨u,us,hcons⟩ := List.exists_cons_of_ne_nil hne
  obtain ⟨hbusy,_,hcount⟩ := hstop u us hcons
  have hstatus : s.device.reads.status = xdmaStatDescStopped ||| xdmaStatDescCompleted := by
    simp [DmaDevice.reads, hbusy]
  refine ⟨?_,?_,u,h.order.headRuns.last hcons,Nat.le_of_eq hcount⟩
  · rw [hstatus]
    decide
  · rw [hstatus]
    decide

structure Handled (s t : Pipeline) : Prop where
  inStep : InStep t
  list : t.driver.engine.transferList = s.driver.engine.transferList.tail
  need : t.driver.need = s.driver.need
  queued : t.driver.queued = s.driver.queued
  progress : t.progress = 0

theorem InStep.service {s : Pipeline} {p : Params} (h : InStep s) (hirq : s.device.irq = true) :
    ∃ t, pipeNext p s .service = some t ∧ Handled s t := by
  obtain ⟨hne,hclean,hstop⟩ := h.interrupted hirq
  obtain ⟨_,u,us,d,hcons,hop,hs,hfaulty,hstops,_⟩ :=
    service_stoppedCleanly (p := p) h.order.sound h.order.headRuns hne hclean
  obtain ⟨hbusy,hcount,hread⟩ := hstop u us hcons
  have hstep : pipeNext p s .service = some (s.acknowledged.afterCall d) := by
    obtain ⟨rc,hcall⟩ := hop
    simp only [pipeNext, hirq, if_true, hcall]
  have hlist : d.engine.transferList = us := by
    rw [hs.list, hfaulty]
    rfl
  have hremoved : d.removed = s.driver.removed ++ [u] := by
    rw [hs.removed, hfaulty]
    rfl
  have hstarted : d.started = s.driver.started ++ us.head?.toList := by
    rw [hs.started, hstops, hlist]
    rfl
  have hsame : ∀ v, (s.driver.transfers v).SameDescriptors (d.transfers v) := fun v => by
    rw [hs.transfers, settle_nil]
    exact settle_same ..
  have hmem : ∀ v ∈ us, v ∈ s.driver.engine.transferList := fun v hv => by
    rw [hcons]
    exact List.mem_cons_of_mem _ hv
  have hload : TableLoaded d s.tables := by
    refine ⟨h.order.step hclean hop,fun v hv => ?_,fun v hv => ?_,fun v hv => ?_,fun v hv => ?_⟩
    · exact (hsame v).linked (h.linked v (hmem v (hlist ▸ hv)))
    · exact (hsame v).holds (h.tables v (hmem v (hlist ▸ hv)))
    · by_cases hvu : v = u
      · subst v
        rw [hs.state_final, hfaulty, hread, finalState, if_neg Bool.false_ne_true,
          if_neg (Nat.lt_irrefl _)]
      · rw [hs.state_other List.not_mem_nil hvu]
        have hv : v ∈ s.driver.removed := by simpa [hremoved, hvu] using hv
        exact h.completed v hv
    · have hv := hlist ▸ hv
      have hnodup : (u :: us).Nodup :=
        hcons ▸ (List.nodup_append.mp (h.order.sound.order ▸ h.order.sound.nodup)).2.1
      have hne : v ≠ u := fun hvu => (List.nodup_cons.mp hnodup).1 (hvu ▸ hv)
      rw [hs.state_other List.not_mem_nil hne]
      exact h.submitted v (hmem v hv)
  -- all of the head was executed
  have hexec : s.executed = d.descriptors d.removed := by
    have hdesc : d.descriptors d.removed = s.driver.descriptors d.removed :=
      descriptors_congr fun v _ => hsame v
    have hprogress : s.progress = (s.driver.transfers u).descriptors.length := by
      rw [Pipeline.progress, if_neg hne, hcount, descriptors_length]
      rfl
    have hall := h.executed
    rw [hprogress, hcons, descriptors_cons, List.take_left] at hall
    rw [hdesc, hremoved, hall, Driver.descriptors, Driver.descriptors, List.flatMap_append]
    simp
  have hin : InStep (s.acknowledged.afterCall d) ∧ (s.acknowledged.afterCall d).progress = 0 := by
    cases us with
    | nil =>
      have hsame' : d.started = s.acknowledged.driver.started := by
        rw [hstarted, List.head?_nil, Option.toList_none, List.append_nil]
        rfl
      have hkeep : (s.acknowledged.afterCall d).device = s.acknowledged.device := if_pos hsame'
      have hzero : (s.acknowledged.afterCall d).progress = 0 := if_pos hlist
      refine ⟨⟨hload.order,hload.linked,hload.tables,fun _ => ?_,fun v vs hv => ?_,hload.completed,
        hload.submitted,?_⟩,hzero⟩
      · rw [hkeep]
        exact ⟨hbusy,rfl⟩
      · exact absurd (hlist.symm.trans hv) (List.cons_ne_nil v vs).symm
      · rw [hzero, List.take_zero, List.append_nil]
        exact hexec
    | cons v vs =>
      have hstarts : StartsHead s.acknowledged.driver d := opStep_startsHead h.order.sound hop
      have hin := @TableLoaded.started s.acknowledged d v vs hload hstarts hlist hstarted hexec
      exact ⟨hin,(s.acknowledged.restarted hstarted).2⟩
  refine ⟨_,hstep,hin.1,?_,hs.need,hs.queued,hin.2⟩
  rw [afterCall_driver, hlist, hcons, List.tail_cons]

def PipeOp.internal : PipeOp → Prop
  | .submit _ => False
  | _ => True

/-- An idle engine on both sides. -/
structure Pipeline.Begins (s : Pipeline) : Prop where
  fresh : Fresh s.driver
  busy : s.device.busy = false
  irq : s.device.irq = false
  executed : s.executed = []

theorem Pipeline.Begins.inStep {s : Pipeline} (h : s.Begins) : InStep s where
  order := ⟨h.fresh.sound,h.fresh.headRuns,fun hr => by rw [h.fresh.running] at hr; cases hr⟩
  linked t ht := by simp [h.fresh.list] at ht
  tables t ht := by simp [h.fresh.list] at ht
  idle _ := ⟨h.busy,h.irq⟩
  head t rest hcons := by simp [h.fresh.list] at hcons
  completed t ht := by simp [h.fresh.removed] at ht
  submitted t ht := by simp [h.fresh.list] at ht
  executed := by simp [h.executed, h.fresh.removed, h.fresh.list, Driver.descriptors]

theorem InStep.step {p : Params} {s t : Pipeline} {op : PipeOp} (h : InStep s)
    (hok : freshTable s op) (hstep : pipeNext p s op = some t) : InStep t := by
  cases op with
  | submit x => exact h.submit hok hstep
  | execute => exact h.execute hstep
  | service =>
    have hirq : s.device.irq = true := by
      by_contra hno
      simp [pipeNext, hno] at hstep
    obtain ⟨u,hu,hhandled⟩ := h.service hirq
    rw [hstep] at hu
    cases hu
    exact hhandled.inStep

theorem InStep.submit_returns {s : Pipeline} (p : Params) (h : InStep s) (x : LinkedTransfer) :
    ∃ t, pipeNext p s (.submit x) = some t := by
  obtain ⟨d,rc,hcall⟩ := opStep_queue_returns (p := p) h.order.sound x.toPlainTransfer
  exact ⟨(s.withTable x.transfer).afterCall d,by simp only [pipeNext, hcall]⟩

/-- In every state the device has executed the descriptors of the transfers that
are gone, each of them once and in the order they were submitted, and some of the
head; whatever has left the list is complete, whatever is on it submitted, and no
call trips over an assertion. -/
theorem run_inStep {p : Params} {s₀ s : Pipeline} {ops : List PipeOp} (h₀ : s₀.Begins)
    (r : Run (stepOf (pipeNext p)) freshTable s₀ ops s) :
    (∃ n, s.executed = ((s.driver.descriptors s.driver.removed) ++
        (s.driver.descriptors s.driver.engine.transferList.head?.toList).take n)) ∧
      s.driver.queued = s.driver.removed ++ s.driver.engine.transferList ∧ s.driver.queued.Nodup ∧
      (∀ t ∈ s.driver.removed, s.driver.state t = .completed) ∧
      (∀ t ∈ s.driver.engine.transferList, s.driver.state t = .submitted) ∧
      (∀ x, ∃ t, pipeNext p s (.submit x) = some t) ∧
      (s.device.irq = true → ∃ t, pipeNext p s .service = some t) := by
  have h : InStep s := r.invariant InStep h₀.inStep fun _ _ _ hs hok hstep => hs.step hok hstep
  refine ⟨⟨s.progress,?_⟩,h.order.sound.order,h.order.sound.nodup,h.completed,h.submitted,
    h.submit_returns p,fun hirq => ?_⟩
  · rw [h.executed]
    cases hlist : s.driver.engine.transferList with
    | nil => rfl
    | cons u us =>
      have hle := (h.head u us hlist).completed_le
      have hprogress : s.progress ≤ (s.driver.transfers u).descriptors.length := by
        rw [Pipeline.progress, hlist, if_neg (List.cons_ne_nil u us), descriptors_length]
        exact hle
      rw [descriptors_cons, List.take_append_of_le_length hprogress]
      simp [Driver.descriptors]
  · obtain ⟨t,hstep,_⟩ := h.service (p := p) hirq
    exact ⟨t,hstep⟩

def Pipeline.outstanding (s : Pipeline) : Nat :=
  total (fun t => s.driver.need t+1) s.driver.engine.transferList-s.progress

theorem InStep.outstanding_execute {p : Params} {s t : Pipeline} (h : InStep s)
    (hstep : pipeNext p s .execute = some t) :
    t.outstanding < s.outstanding ∧ t.driver = s.driver := by
  simp only [pipeNext, Option.ite_none_right_eq_some, Option.some.injEq] at hstep
  obtain ⟨hbusy,rfl⟩ := hstep
  refine ⟨?_,rfl⟩
  cases hlist : s.driver.engine.transferList with
  | nil =>
    have hidle := (h.idle hlist).1
    rw [hbusy] at hidle
    cases hidle
  | cons u us =>
    have hlt : s.device.completed < s.driver.need u := ((h.head u us hlist).busy hbusy).2.1
    simp only [Pipeline.outstanding, Pipeline.progress, hlist, execute_completed, total_cons,
      if_neg (List.cons_ne_nil u us)]
    omega

theorem InStep.outstanding_service {s t : Pipeline} (h : InStep s) (hirq : s.device.irq = true)
    (ht : Handled s t) : t.outstanding < s.outstanding := by
  obtain ⟨hne,_,hstop⟩ := h.interrupted hirq
  obtain ⟨u,us,hcons⟩ := List.exists_cons_of_ne_nil hne
  have hcount := (hstop u us hcons).2.1
  have hprogress : s.progress = s.driver.need u := by rw [Pipeline.progress, if_neg hne, hcount]
  rw [Pipeline.outstanding, Pipeline.outstanding, ht.list, ht.need, ht.progress, hprogress, hcons,
    List.tail_cons, total_cons]
  omega

theorem InStep.internal {p : Params} {s t : Pipeline} {op : PipeOp} (h : InStep s)
    (hin : op.internal) (hstep : pipeNext p s op = some t) :
    InStep t ∧ t.outstanding < s.outstanding ∧ t.driver.queued = s.driver.queued := by
  cases op with
  | submit x => exact hin.elim
  | execute =>
    obtain ⟨hlt,hsame⟩ := h.outstanding_execute hstep
    exact ⟨h.execute hstep,hlt,congrArg Driver.queued hsame⟩
  | service =>
    have hirq : s.device.irq = true := by
      by_contra hno
      simp [pipeNext, hno] at hstep
    obtain ⟨u,hu,hhandled⟩ := h.service hirq
    rw [hstep] at hu
    cases hu
    exact ⟨hhandled.inStep,h.outstanding_service hirq hhandled,hhandled.queued⟩

/-- While a transfer is listed, the device or the handler can do something. -/
theorem InStep.live {s : Pipeline} (p : Params) (h : InStep s)
    (hne : s.driver.engine.transferList ≠ []) :
    ∃ op, op.internal ∧ ∃ t, pipeNext p s op = some t := by
  obtain ⟨u,us,hcons⟩ := List.exists_cons_of_ne_nil hne
  cases hbusy : s.device.busy with
  | true => exact ⟨.execute,trivial,_,if_pos hbusy⟩
  | false =>
    obtain ⟨t,hstep,_⟩ := h.service (p := p) ((h.head u us hcons).stopped hbusy).1
    exact ⟨.service,trivial,t,hstep⟩

theorem InStep.settles {s : Pipeline} (p : Params) (h : InStep s) :
    ∃ more t, Run (stepOf (pipeNext p)) (fun _ op => op.internal) s more t ∧
      ∀ op, op.internal → pipeNext p t op = none := by
  obtain ⟨n,hn⟩ : ∃ n, n = s.outstanding := ⟨_,rfl⟩
  induction n using Nat.strongRecOn generalizing s with
  | ind n ih =>
    by_cases hstuck : ∀ op, op.internal → pipeNext p s op = none
    · exact ⟨[],s,.nil,hstuck⟩
    · simp only [not_forall] at hstuck
      obtain ⟨op,hin,hsome⟩ := hstuck
      obtain ⟨t,hstep⟩ := Option.ne_none_iff_exists'.mp hsome
      obtain ⟨ht,hlt,_⟩ := h.internal hin hstep
      obtain ⟨more,u,r,hu⟩ := ih t.outstanding (hn ▸ hlt) ht rfl
      exact ⟨op :: more,u,r.cons hin hstep,hu⟩

/-- Left to themselves, the device and the handler come to an end, however they
take turns, and then all that was submitted is done. -/
theorem run_drains {p : Params} {s₀ s t : Pipeline} {ops more : List PipeOp} (h₀ : s₀.Begins)
    (r : Run (stepOf (pipeNext p)) freshTable s₀ ops s)
    (r' : Run (stepOf (pipeNext p)) (fun _ op => op.internal) s more t) :
    more.length ≤ s.outstanding ∧
      ((∀ op, op.internal → pipeNext p t op = none) →
        t.driver.removed = s.driver.queued ∧ t.driver.engine.transferList = [] ∧
        (∀ v ∈ s.driver.queued, t.driver.state v = .completed) ∧
        t.executed = t.driver.descriptors s.driver.queued) := by
  have h : InStep s := r.invariant InStep h₀.inStep fun _ _ _ hs hok hstep => hs.step hok hstep
  obtain ⟨⟨ht,hqueued⟩,hle⟩ := r'.bounded
    (fun u => InStep u ∧ u.driver.queued = s.driver.queued) Pipeline.outstanding ⟨h,rfl⟩
    fun u op v hu hin hstep => by
      obtain ⟨hv,hlt,hsame⟩ := hu.1.internal hin hstep
      exact ⟨⟨hv,hsame.trans hu.2⟩,hlt⟩
  refine ⟨by omega,fun hstuck => ?_⟩
  have hnil : t.driver.engine.transferList = [] := by
    by_contra hne
    obtain ⟨op,hin,u,hstep⟩ := ht.live p hne
    rw [hstuck op hin] at hstep
    cases hstep
  have horder := ht.order.sound.order
  have hexec := ht.executed
  rw [hnil, List.append_nil, hqueued] at horder
  rw [hnil, ← horder] at hexec
  refine ⟨horder.symm,hnil,fun v hv => ht.completed v (horder ▸ hv),?_⟩
  simpa [Driver.descriptors] using hexec

def Pipeline.created (p : Params) : Pipeline :=
  ⟨.created p,fun _ => default,⟨false,0,0,0,false⟩,[]⟩

theorem created_begins (p : Params) : (Pipeline.created p).Begins := ⟨fresh_created p,rfl,rfl,rfl⟩

theorem twoPages_linked : ∃ x : LinkedTransfer, x.transfer.descNum = 2 := by
  obtain ⟨x,hx,hplain,hnum⟩ : ∃ x, transferCreate (.ample fun page => BitVec.ofNat 64 (page*8192))
      100 5000 0 ⟨true,false,false,true⟩ = .ok (some x) ∧ x.cyclic = false ∧ x.descNum = 2 :=
    ⟨_,rfl,rfl,rfl⟩
  exact ⟨⟨⟨x,hplain,by omega,by omega⟩,transferCreate_linked hx⟩,hnum⟩

theorem created_submit (p : Params) (x : LinkedTransfer) : ∃ s,
    Run (stepOf (pipeNext p)) freshTable (.created p) [.submit x] s := by
  obtain ⟨s,hstep⟩ := (created_begins p).inStep.submit_returns p x
  have hfresh : freshTable (.created p) (.submit x) := by
    intro t ht
    cases ht
  exact ⟨s,.single hfresh hstep⟩

theorem run_inStep_submitted : ∃ x s,
    Run (stepOf (pipeNext ⟨false,false⟩)) freshTable (.created ⟨false,false⟩) [.submit x] s ∧
    (∃ n, s.executed = ((s.driver.descriptors s.driver.removed) ++
      (s.driver.descriptors s.driver.engine.transferList.head?.toList).take n)) ∧
    ∀ t ∈ s.driver.engine.transferList, s.driver.state t = .submitted := by
  obtain ⟨x,_⟩ := twoPages_linked
  obtain ⟨s,r⟩ := created_submit ⟨false,false⟩ x
  obtain ⟨hexecuted,_,_,_,hsubmitted,_⟩ := run_inStep (created_begins _) r
  exact ⟨x,s,r,hexecuted,hsubmitted⟩

theorem run_drains_submitted : ∃ x s t more,
    Run (stepOf (pipeNext ⟨false,false⟩)) freshTable (.created ⟨false,false⟩) [.submit x] s ∧
    Run (stepOf (pipeNext ⟨false,false⟩)) (fun _ op => op.internal) s more t ∧
    t.driver.removed = s.driver.queued ∧ t.driver.engine.transferList = [] := by
  obtain ⟨x,_⟩ := twoPages_linked
  obtain ⟨s,r⟩ := created_submit ⟨false,false⟩ x
  have h : InStep s := r.invariant InStep (created_begins _).inStep
    fun _ _ _ hs hok hstep => hs.step hok hstep
  obtain ⟨more,t,r',hstuck⟩ := h.settles ⟨false,false⟩
  obtain ⟨hremoved,hnil,_⟩ := (run_drains (created_begins _) r r').2 hstuck
  exact ⟨x,s,t,more,r,r',hremoved,hnil⟩

end DmaCamera
