import DmaCamera.EngineRuns
set_option autoImplicit false

namespace DmaCamera
open Countdown Runs

theorem serviceStatus_interrupt (e : Engine) (reads : RegisterReads) :
    serviceStatus e 0 reads = reads.status := by
  have h : readsStatus 0 = true := by decide
  rw [serviceStatus, if_pos h]

theorem serviceCount_interrupt (reads : RegisterReads) :
    serviceCount 0 reads = reads.completedDescCount.toNat := by
  have h : (writebackCount 0 == 0) = true := by decide
  rw [serviceCount, if_pos h]

theorem faulty_interrupt (d : Driver) (reads : RegisterReads) :
    d.faulty 0 reads = reads.status.has errFlags := by
  rw [Driver.faulty, serviceStatus_interrupt]

theorem stops_interrupt (d : Driver) (reads : RegisterReads) :
    d.stops 0 reads = !reads.status.has xdmaStatBusy := by
  have h : (writebackCount 0 != 0) = false := by decide
  rw [Driver.stops, servicesShutdown, serviceStatus_interrupt, h, Bool.or_false]

theorem pendingCount_fresh {e : Engine} (h : e.descDequeued = 0) (c : U32) :
    pendingCount e c.toNat = c.toNat := by
  have hc := c.isLt
  rw [pendingCount, h]
  omega

/-- A listed transfer is running, nothing of its run is dequeued, and it is the
one the device was started with last. -/
def HeadRuns (d : Driver) : Prop :=
  d.engine.transferList ≠ [] → d.engine.running = true ∧ d.engine.descDequeued = 0 ∧
    d.engine.transferList.head? = d.started.getLast?

theorem Fresh.headRuns {d : Driver} (h : Fresh d) : HeadRuns d := fun hne => absurd h.list hne

theorem HeadRuns.queue {d d' : Driver} {x : PlainTransfer} (hd : Sound d) (h : HeadRuns d)
    (hempty : d.engine.running = true → d.engine.transferList ≠ [])
    (hq : Queued (d.submit x) d.queued.length d') : HeadRuns d' := by
  have hlist : d'.engine.transferList = d.engine.transferList ++ [d.queued.length] :=
    hq.same.transferList
  have hdeq : d'.engine.descDequeued = if d.engine.running then d.engine.descDequeued else 0 :=
    hq.descDequeued
  have hstarted : d'.started = d.started ++
    if d.engine.running then [] else (d.engine.transferList ++ [d.queued.length]).head?.toList :=
      hq.started
  intro _
  refine ⟨hq.running,?_,?_⟩
  · cases hrun : d.engine.running with
    | true => rw [hdeq, hrun, if_pos rfl, (h (hempty hrun)).2.1]
    | false => rw [hdeq, hrun, if_neg Bool.false_ne_true]
  · rw [hlist, hstarted]
    cases hrun : d.engine.running with
    | true =>
      have hne := hempty hrun
      have hhead := (h hne).2.2
      rw [if_pos rfl, List.append_nil, ← hhead, List.head?_append]
      cases hcons : d.engine.transferList with
      | nil => exact absurd hcons hne
      | cons u us => rfl
    | false =>
      rw [hd.idle hrun]
      simp

theorem Serviced.headRuns {d d' : Driver} {wb : U32} {reads : RegisterReads}
    {gone rest : List TransferId} {t : TransferId} {left : Nat}
    (hs : Serviced d wb reads gone t rest left d') (hstop : d.stops wb reads = true) :
    HeadRuns d' := by
  intro hne
  obtain ⟨u,us,hcons⟩ := List.exists_cons_of_ne_nil hne
  refine ⟨?_,?_,?_⟩
  · rw [hs.running, hcons, hstop]
    rfl
  · rw [hs.descDequeued, hcons, hstop]
    rfl
  · rw [hs.started, hcons, hstop]
    simp

/-- Neither too many descriptors nor an error is reported, and a running engine
is only serviced once it has stopped. -/
def stoppedCleanly (d : Driver) : EngineOp → Prop
  | .queue _ => True
  | .service descWriteback reads => descWriteback = 0 ∧ (d.engine.running = true →
      reads.status.has xdmaStatBusy = false ∧ reads.status.has errFlags = false ∧
      ∃ t, d.started.getLast? = some t ∧ reads.completedDescCount.toNat ≤ d.need t)

/-- What a call does when the device stopped inside the transfer it was started with. -/
theorem service_stoppedCleanly {p : Params} {d : Driver} {wb : U32} {reads : RegisterReads}
    (hd : Sound d) (h : HeadRuns d) (hne : d.engine.transferList ≠ [])
    (hok : stoppedCleanly d (.service wb reads)) :
    wb = 0 ∧ ∃ t rest d', d.engine.transferList = t :: rest ∧ opStep p d (.service wb reads) d' ∧
      Serviced d 0 reads [] t rest reads.completedDescCount.toNat d' ∧
      d.faulty 0 reads = false ∧ d.stops 0 reads = true ∧
      reads.completedDescCount.toNat ≤ d.need t := by
  obtain ⟨rfl,hok⟩ := hok
  obtain ⟨hrun,hdeq,hhead⟩ := h hne
  obtain ⟨hbusy,herr,u,hlast,hle⟩ := hok hrun
  obtain ⟨t,rest,hcons⟩ := List.exists_cons_of_ne_nil hne
  have hu : t = u := by
    rw [hcons, hlast] at hhead
    exact Option.some.inj hhead
  subst hu
  have hsplit : split d.need d.engine.transferList (pendingCount d.engine (serviceCount 0 reads)) =
      ([],t :: rest,reads.completedDescCount.toNat) := by
    rw [serviceCount_interrupt, pendingCount_fresh hdeq, hcons, split_of_le _ hle]
  obtain ⟨d',hcall,hs⟩ := engineService_spec (p := p) hrun hd.listPlain hd.shutdown hsplit
  refine ⟨rfl,t,rest,d',hcons,⟨_,hcall⟩,hs,?_,?_,hle⟩
  · rw [faulty_interrupt, herr]
  · rw [stops_interrupt, hbusy]
    rfl

theorem opStep_unique {p : Params} {d d₁ d₂ : Driver} {op : EngineOp} (h₁ : opStep p d op d₁)
    (h₂ : opStep p d op d₂) : d₁ = d₂ := by
  obtain ⟨_,h₁⟩ := h₁
  obtain ⟨_,h₂⟩ := h₂
  rw [h₁] at h₂
  cases h₂
  rfl

structure InOrder (d : Driver) : Prop where
  sound : Sound d
  headRuns : HeadRuns d
  nonempty : d.engine.running = true → d.engine.transferList ≠ []

theorem InOrder.step {p : Params} {d d' : Driver} {op : EngineOp} (h : InOrder d)
    (hok : stoppedCleanly d op) (hstep : opStep p d op d') : InOrder d' := by
  have hd' := h.sound.step hstep
  cases op with
  | queue x =>
    have hq := opStep_queue h.sound hstep
    refine ⟨hd',h.headRuns.queue h.sound h.nonempty hq,fun _ => ?_⟩
    have hlist : d'.engine.transferList = d.engine.transferList ++ [d.queued.length] :=
      hq.same.transferList
    simp [hlist]
  | service wb reads =>
    cases hrun : d.engine.running with
    | true =>
      obtain ⟨rfl,t,rest,d₁,_,hcall,hs,_,hstop,_⟩ :=
        service_stoppedCleanly (p := p) h.sound h.headRuns (h.nonempty hrun) hok
      rw [opStep_unique hstep hcall]
      refine ⟨h.sound.step hcall,hs.headRuns hstop,fun hr => ?_⟩
      rw [hs.running, hstop] at hr
      simpa using hr
    | false =>
      rcases opStep_service h.sound hstep with ⟨_,rfl⟩ | ⟨hr,_⟩
      · exact ⟨hd',h.headRuns,h.nonempty⟩
      · rw [hrun] at hr
        cases hr

/-- While the device only ever stops cleanly, the engine runs exactly when
transfers are queued, the head being the one it was started with; no call trips
over an assertion, transfers leave in the order they came, each once, and the
count at which the device stopped decides how. -/
theorem run_stoppedCleanly {p : Params} {d₀ d : Driver} {ops : List EngineOp} (h₀ : Fresh d₀)
    (r : Run (opStep p) stoppedCleanly d₀ ops d) :
    (d.engine.running = true ↔ d.engine.transferList ≠ []) ∧
      (d.engine.transferList ≠ [] → d.engine.transferList.head? = d.started.getLast?) ∧
      d.queued = d.removed ++ d.engine.transferList ∧ d.queued.Nodup ∧
      (∀ op, stoppedCleanly d op → ∃ d', opStep p d op d') ∧
      ∀ wb reads d', stoppedCleanly d (.service wb reads) → opStep p d (.service wb reads) d' →
        ∀ t, t ∈ d'.removed → t ∉ d.removed → d'.state t =
          if reads.completedDescCount.toNat = d.need t then .completed else .failed := by
  have h : InOrder d := r.invariant InOrder
    ⟨h₀.sound,h₀.headRuns,fun hr => by rw [h₀.running] at hr; cases hr⟩
    fun _ _ _ hi hok hstep => hi.step hok hstep
  have hrunning : d.engine.running = true ↔ d.engine.transferList ≠ [] :=
    ⟨h.nonempty,fun hne => (h.headRuns hne).1⟩
  refine ⟨hrunning,fun hne => (h.headRuns hne).2.2,h.sound.order,h.sound.nodup,?_,?_⟩
  · intro op hok
    cases op with
    | queue x => exact opStep_queue_returns h.sound x
    | service wb reads =>
      cases hrun : d.engine.running with
      | true =>
        obtain ⟨_,_,_,d',_,hcall,_⟩ :=
          service_stoppedCleanly (p := p) h.sound h.headRuns (h.nonempty hrun) hok
        exact ⟨d',hcall⟩
      | false => exact ⟨_,0,engineService_idle hrun wb reads⟩
  · intro wb reads d' hok hstep t ht hnew
    cases hrun : d.engine.running with
    | true =>
      obtain ⟨rfl,u,rest,d₁,_,hcall,hs,herr,_,hle⟩ :=
        service_stoppedCleanly (p := p) h.sound h.headRuns (h.nonempty hrun) hok
      rw [opStep_unique hstep hcall] at ht ⊢
      rw [hs.removed, herr] at ht
      have htu : t = u := by simpa [hnew] using ht
      rw [htu, hs.state_final, herr, finalState, if_neg Bool.false_ne_true]
      by_cases hc : reads.completedDescCount.toNat = d.need u
      · rw [if_pos hc, if_neg (by omega)]
      · rw [if_neg hc, if_pos (by omega)]
    | false =>
      rcases opStep_service h.sound hstep with ⟨_,rfl⟩ | ⟨hr,_⟩
      · exact absurd ht hnew
      · rw [hrun] at hr
        cases hr

theorem run_stoppedCleanly_done : ((Driver.first ⟨false,false⟩ .two).after ⟨false,false⟩
      [.service 0 ⟨6,2⟩]).state 0 = .completed := by
  let d := Driver.first ⟨false,false⟩ .two
  have r : Run (opStep ⟨false,false⟩) stoppedCleanly (.created ⟨false,false⟩) [.queue .two] d :=
    Run.single trivial (first_step _ _)
  have hclean : stoppedCleanly d (.service 0 ⟨6,2⟩) :=
    ⟨rfl,fun _ => ⟨by decide,by decide,0,by decide,by decide⟩⟩
  have hstep : opStep ⟨false,false⟩ d (.service 0 ⟨6,2⟩) (d.after ⟨false,false⟩
      [.service 0 ⟨6,2⟩]) := opStep_after (by decide)
  have h := (run_stoppedCleanly (fresh_created _) r).2.2.2.2.2 0 ⟨6,2⟩ _ hclean hstep 0
    (by decide) (by decide)
  rw [if_pos (by decide)] at h
  exact h

def EngineOp.interrupt : EngineOp → Prop
  | .queue _ => True
  | .service descWriteback _ => descWriteback = 0

def interruptStep (p : Params) (d : Driver) (op : EngineOp) (d' : Driver) : Prop :=
  op.interrupt ∧ opStep p d op d'

/-- Listed transfers have a running engine that was started with their head, and
those gone had been started. -/
def HeadStarted (d : Driver) : Prop :=
  (d.engine.transferList ≠ [] → d.engine.running = true ∧
    d.engine.transferList.head? = d.started.getLast?) ∧ ∀ t ∈ d.removed, t ∈ d.started

/-- No transfer is queued on an engine that runs with an empty list. A call that
finds transfer `t` running reads a count within it, and BUSY clear or an error
flag or nothing queued behind `t`; or BUSY clear, an error flag and a count that
ends in the transfer behind `t`. -/
def keepsHead (d : Driver) : EngineOp → Prop
  | .queue _ => d.engine.running = true → d.engine.transferList ≠ []
  | .service _ reads => d.engine.running = true → ∀ t rest, d.engine.transferList = t :: rest →
      (reads.completedDescCount.toNat ≤ d.need t ∧ (reads.status.has xdmaStatBusy = false ∨
        reads.status.has errFlags = true ∨ rest = [])) ∨
      (reads.status.has xdmaStatBusy = false ∧ reads.status.has errFlags = true ∧
        ∃ u us, rest = u :: us ∧ reads.completedDescCount.toNat ≤ d.need t+d.need u)

theorem HeadRuns.last {d : Driver} {t : TransferId} {rest : List TransferId} (h : HeadRuns d)
    (hlist : d.engine.transferList = t :: rest) : d.started.getLast? = some t := by
  have hhead := (h (by rw [hlist]; exact List.cons_ne_nil t rest)).2.2
  rw [hlist] at hhead
  exact hhead.symm

section keepsHead

variable {d d' : Driver} {reads : RegisterReads} {t : TransferId} {rest : List TransferId}
  (hd : Sound d) (hh : HeadRuns d) (hrem : ∀ v ∈ d.removed, v ∈ d.started)
  (hlist : d.engine.transferList = t :: rest)

include hh hrem hlist in
theorem gone_started {gone : List TransferId} (hgone : ∀ v ∈ gone, v = t)
    (hs : d'.removed = d.removed ++ gone) (hkeep : ∀ v ∈ d.started, v ∈ d'.started) :
    ∀ v ∈ d'.removed, v ∈ d'.started := by
  intro v hv
  rw [hs] at hv
  rcases List.mem_append.mp hv with hv | hv
  · exact hkeep v (hrem v hv)
  · rw [hgone v hv]
    exact hkeep t (List.mem_of_getLast? (hh.last hlist))

include hd hh hrem hlist

theorem service_within (hle : reads.completedDescCount.toNat ≤ d.need t)
    (hs : Serviced d 0 reads [] t rest reads.completedDescCount.toNat d') :
    (keepsHead d (.service 0 reads) → HeadRuns d' ∧ HeadStarted d') ∧
      (HeadStarted d' → keepsHead d (.service 0 reads)) := by
  have hne : d.engine.transferList ≠ [] := by rw [hlist]; exact List.cons_ne_nil t rest
  obtain ⟨hrun,hdeq,_⟩ := hh hne
  have hlast := hh.last hlist
  have hfaulty := faulty_interrupt d reads
  have hstops := stops_interrupt d reads
  have hgone : ∀ v ∈ d'.removed, v ∈ d'.started := by
    refine gone_started hh hrem hlist ?_ hs.removed fun v hv => hs.started_keep hv
    intro v hv
    rw [List.nil_append] at hv
    split at hv
    · cases hv
    · exact List.mem_singleton.mp hv
  cases hbusy : reads.status.has xdmaStatBusy with
  | false =>
    rw [hbusy] at hstops
    have hruns := hs.headRuns hstops
    refine ⟨fun _ => ⟨hruns,fun h => ⟨(hruns h).1,(hruns h).2.2⟩,hgone⟩,fun _ _ t' rest' hl => ?_⟩
    rw [hlist] at hl
    cases hl
    exact Or.inl ⟨hle,Or.inl hbusy⟩
  | true =>
    rw [hbusy] at hstops
    have hstarted : d'.started = d.started := by
      rw [hs.started, hstops]
      exact List.append_nil _
    have hrunning : d'.engine.running = true := by
      rw [hs.running, hstops]
      rfl
    cases herr : reads.status.has errFlags with
    | true =>
      have hlist' : d'.engine.transferList = t :: rest := by
        rw [hs.list, hfaulty, herr, if_pos rfl]
      have hdeq' : d'.engine.descDequeued = 0 := by
        rw [hs.descDequeued, hstops, hfaulty, herr, hdeq]
        rfl
      have hhead : d'.engine.transferList.head? = d'.started.getLast? := by
        rw [hlist', hstarted, hlast]
        rfl
      refine ⟨fun _ => ⟨fun _ => ⟨hrunning,hdeq',hhead⟩,fun _ => ⟨hrunning,hhead⟩,hgone⟩,
        fun _ _ t' rest' hl => ?_⟩
      rw [hlist] at hl
      cases hl
      exact Or.inl ⟨hle,Or.inr (Or.inl herr)⟩
    | false =>
      have hlist' : d'.engine.transferList = rest := by
        rw [hs.list, hfaulty, herr, if_neg Bool.false_ne_true]
      cases rest with
      | nil =>
        refine ⟨fun _ => ⟨fun h => absurd hlist' h,fun h => absurd hlist' h,hgone⟩,
          fun _ _ t' rest' hl => ?_⟩
        rw [hlist] at hl
        cases hl
        exact Or.inl ⟨hle,Or.inr (Or.inr rfl)⟩
      | cons u us =>
        refine ⟨fun hk => ?_,fun hj => ?_⟩
        · rcases hk hrun t (u :: us) hlist with ⟨_,hb | he | hnil⟩ | ⟨hb,_⟩
          · rw [hbusy] at hb
            cases hb
          · rw [herr] at he
            cases he
          · cases hnil
          · rw [hbusy] at hb
            cases hb
        · -- the head is now a transfer that was never started
          have hhead := (hj.1 (by rw [hlist']; exact List.cons_ne_nil u us)).2
          rw [hlist', hstarted, hlast] at hhead
          have hut : u = t := Option.some.inj hhead
          have hn := hd.listNodup
          rw [hlist, hut] at hn
          exact absurd (List.mem_cons_self ..) (List.nodup_cons.mp hn).1

/-- The device counts more descriptors than the running transfer has. -/
theorem service_beyond {gone rest' : List TransferId} {v : TransferId} {left : Nat}
    (hlt : d.need t < reads.completedDescCount.toNat)
    (hsplit : split d.need rest (reads.completedDescCount.toNat-d.need t) = (gone,v :: rest',left))
    (hs : Serviced d 0 reads (t :: gone) v rest' left d') (hd' : Sound d') :
    (keepsHead d (.service 0 reads) → HeadRuns d' ∧ HeadStarted d') ∧
      (HeadStarted d' → keepsHead d (.service 0 reads)) := by
  have hne : d.engine.transferList ≠ [] := by rw [hlist]; exact List.cons_ne_nil t rest
  obtain ⟨hrun,hdeq,_⟩ := hh hne
  have hlast := hh.last hlist
  have hfaulty := faulty_interrupt d reads
  have hstops := stops_interrupt d reads
  have hrest : rest = gone ++ v :: rest' := split_cut hsplit
  have hremoved := hs.removed
  rw [hfaulty] at hremoved
  refine ⟨fun hk => ?_,fun hj => ?_⟩
  · rcases hk hrun t rest hlist with ⟨hle,_⟩ | ⟨hbusy,herr,u,us,hcons,hle⟩
    · omega
    · rw [hcons, split_of_le _ (by omega)] at hsplit
      cases hsplit
      rw [hbusy] at hstops
      have hruns := hs.headRuns hstops
      refine ⟨hruns,fun h => ⟨(hruns h).1,(hruns h).2.2⟩,?_⟩
      refine gone_started hh hrem hlist ?_ hremoved fun w hw => hs.started_keep hw
      intro w hw
      rw [herr] at hw
      simpa using hw
  · -- a removed transfer behind `t` was not started before and is not now
    have hnot : ∀ w, w ∈ d'.removed → w ∉ rest := by
      intro w hw hwr
      have hstart := hj.2 w hw
      rcases hs.started_sub hstart with hold | hnew
      · exact hd.behind w (by rw [hlist]; exact hwr) hold
      · exact hd'.notListed hw (List.mem_of_mem_head? (Option.mem_toList.mp hnew))
    intro _ t' rest'' hl
    rw [hlist] at hl
    cases hl
    have hnil : gone = [] := by
      cases gone with
      | nil => rfl
      | cons g gs =>
        refine absurd ?_ (hnot g ?_)
        · rw [hrest]
          exact List.mem_cons_self ..
        · rw [hremoved]
          simp
    subst hnil
    have herr : reads.status.has errFlags = true := by
      cases herr : reads.status.has errFlags with
      | true => rfl
      | false =>
        refine absurd ?_ (hnot v ?_)
        · rw [hrest]
          exact List.mem_cons_self ..
        · rw [hremoved, herr]
          simp
    have hlist' : d'.engine.transferList = v :: rest' := by
      rw [hs.list, hfaulty, herr, if_pos rfl]
    have hbusy : reads.status.has xdmaStatBusy = false := by
      cases hbusy : reads.status.has xdmaStatBusy with
      | false => rfl
      | true =>
        have hruns : d.stops 0 reads = false := by rw [hstops, hbusy]; rfl
        have hhead := (hj.1 (by rw [hlist']; exact List.cons_ne_nil v rest')).2
        rw [hlist', hs.started, hruns, if_neg Bool.false_ne_true, List.append_nil, hlast] at hhead
        have hvt : v = t := Option.some.inj hhead
        have hn := hd.listNodup
        rw [hlist, hrest, hvt] at hn
        exact absurd (List.mem_cons_self ..) (List.nodup_cons.mp hn).1
    have hspent := split_spent d.need hsplit
    exact Or.inr ⟨hbusy,herr,v,rest',hrest,by omega⟩

end keepsHead

/-- For one operation, keeping the head started is the same as meeting the condition. -/
theorem keepsHead_step {p : Params} {d d' : Driver} {op : EngineOp} (hd : Sound d)
    (hh : HeadRuns d) (hj : HeadStarted d) (hstep : interruptStep p d op d') :
    (keepsHead d op → HeadRuns d' ∧ HeadStarted d') ∧ (HeadStarted d' → keepsHead d op) := by
  obtain ⟨hint,hstep⟩ := hstep
  have hd' := hd.step hstep
  cases op with
  | queue x =>
    have hq := opStep_queue hd hstep
    have hlist : d'.engine.transferList = d.engine.transferList ++ [d.queued.length] :=
      hq.same.transferList
    have hstarted : d'.started = d.started ++ if d.engine.running then [] else
        (d.engine.transferList ++ [d.queued.length]).head?.toList := hq.started
    have hremoved : d'.removed = d.removed := hq.removed
    refine ⟨fun hk => ?_,fun hj' hrun hnil => ?_⟩
    · have hruns := hh.queue hd hk hq
      refine ⟨hruns,fun h => ⟨(hruns h).1,(hruns h).2.2⟩,fun v hv => ?_⟩
      rw [hremoved] at hv
      rw [hstarted]
      exact List.mem_append_left _ (hj.2 v hv)
    · -- the queued transfer is the head, and the engine was not started with it
      have hhead := (hj'.1 (by simp [hlist])).2
      rw [hlist, hnil, hstarted, hrun, if_pos rfl, List.append_nil] at hhead
      have hmem : d.queued.length ∈ d.started := List.mem_of_getLast? hhead.symm
      exact hd.newId (hd.known _ hmem) rfl
  | service wb reads =>
    obtain rfl : wb = 0 := hint
    rcases opStep_service hd hstep with ⟨hrun,rfl⟩ | ⟨hrun,gone,v,rest',left,hsplit,hs⟩
    · refine ⟨fun _ => ⟨hh,hj⟩,fun _ hr => ?_⟩
      rw [hrun] at hr
      cases hr
    · have happ := split_cut hsplit
      obtain ⟨t,rest,hlist⟩ : ∃ t rest, d.engine.transferList = t :: rest := by
        cases gone with
        | nil => exact ⟨v,rest',happ⟩
        | cons g gs => exact ⟨g,gs ++ v :: rest',happ⟩
      have hdeq := (hh (by rw [hlist]; exact List.cons_ne_nil t rest)).2.1
      rw [serviceCount_interrupt, pendingCount_fresh hdeq, hlist] at hsplit
      by_cases hlt : d.need t < reads.completedDescCount.toNat
      · rw [split_of_lt _ hlt] at hsplit
        simp only [Prod.mk.injEq] at hsplit
        obtain ⟨rfl,hsplit⟩ := hsplit
        exact service_beyond hd hh hj.2 hlist hlt (Prod.ext rfl hsplit) hs hd'
      · have hle := Nat.le_of_not_lt hlt
        rw [split_of_le _ hle] at hsplit
        cases hsplit
        exact service_within hd hh hj.2 hlist hle hs

/-- In a run whose steps all meet the condition no transfer is stranded and none
leaves unstarted, and the first step that does not meet it breaks this. -/
theorem run_keepsHead {p : Params} {d₀ d : Driver} {ops : List EngineOp} (h₀ : Fresh d₀)
    (r : Run (interruptStep p) keepsHead d₀ ops d) :
    HeadStarted d ∧ ∀ op d', interruptStep p d op d' → (HeadStarted d' ↔ keepsHead d op) := by
  have hinit : Sound d₀ ∧ HeadRuns d₀ ∧ HeadStarted d₀ :=
    ⟨h₀.sound,h₀.headRuns,fun h => absurd h₀.list h,by simp [h₀.removed]⟩
  have hkeep : ∀ s op t, (Sound s ∧ HeadRuns s ∧ HeadStarted s) → keepsHead s op →
      interruptStep p s op t → (Sound t ∧ HeadRuns t ∧ HeadStarted t) ∧ HeadStarted t := by
    rintro s op t ⟨hd,hh,hj⟩ hok hstep
    obtain ⟨hh',hj'⟩ := (keepsHead_step hd hh hj hstep).1 hok
    exact ⟨⟨hd.step hstep.2,hh',hj'⟩,hj'⟩
  have honly : ∀ s op t, (Sound s ∧ HeadRuns s ∧ HeadStarted s) → interruptStep p s op t →
      HeadStarted t → keepsHead s op := fun s op t ⟨hd,hh,hj⟩ hstep =>
    (keepsHead_step hd hh hj hstep).2
  obtain ⟨⟨_,_,hj⟩,hiff⟩ := Run.step_iff _ (fun _ t => HeadStarted t) hinit hkeep honly r
  exact ⟨hj,hiff⟩

theorem run_keepsHead_one : HeadStarted (.first ⟨false,false⟩ .one) := by
  have r : Run (interruptStep ⟨false,false⟩) keepsHead (.created ⟨false,false⟩) [.queue .one] _ :=
    Run.single (fun hr => by cases hr) ⟨trivial,first_step _ _⟩
  exact (run_keepsHead (fresh_created _) r).1

def stoppedOrRacing (d : Driver) : EngineOp → Prop
  | .queue _ => True
  | .service descWriteback reads => descWriteback = 0 ∧ (d.engine.running = true →
      reads.status.has errFlags = false ∧ ∃ t, d.started.getLast? = some t ∧
        ((reads.status.has xdmaStatBusy = false ∧ reads.completedDescCount.toNat ≤ d.need t) ∨
          reads.completedDescCount.toNat = d.need t))

/-- Two transfers are queued, and BUSY is still set when the first is serviced. -/
theorem stoppedOrRacing_strands : ¬ ∀ (d₀ d : Driver) (ops : List EngineOp), Fresh d₀ →
    Run (interruptStep ⟨false,false⟩) stoppedOrRacing d₀ ops d → HeadStarted d := by
  intro hall
  let d₁ := Driver.first ⟨false,false⟩ .one
  let d₂ := d₁.after ⟨false,false⟩ [.queue .one]
  let d₃ := d₂.after ⟨false,false⟩ [.service 0 ⟨xdmaStatBusy,1⟩]
  have r₁ : Run (interruptStep ⟨false,false⟩) stoppedOrRacing (.created ⟨false,false⟩)
      [.queue .one] d₁ := Run.single trivial ⟨trivial,first_step _ _⟩
  have r₂ : Run (interruptStep ⟨false,false⟩) stoppedOrRacing (.created ⟨false,false⟩)
      [.queue .one,.queue .one] d₂ := r₁.snoc trivial ⟨trivial,opStep_after (by decide)⟩
  have r₃ : Run (interruptStep ⟨false,false⟩) stoppedOrRacing (.created ⟨false,false⟩)
      [.queue .one,.queue .one,.service 0 ⟨xdmaStatBusy,1⟩] d₃ :=
    r₂.snoc ⟨rfl,fun _ => ⟨by decide,0,by decide,Or.inr (by decide)⟩⟩ ⟨rfl,opStep_after (by decide)⟩
  have hlist : d₃.engine.transferList = [1] := by decide
  have hlast : d₃.started.getLast? = some 0 := by decide
  have hhead := ((hall _ _ _ (fresh_created _) r₃).1 (by rw [hlist]; exact List.cons_ne_nil 1 [])).2
  rw [hlist, hlast] at hhead
  cases hhead

end DmaCamera
