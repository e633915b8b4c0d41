import DmaCamera.ServiceOrder
set_option autoImplicit false

namespace DmaCamera
open Countdown Runs

/-! A transfer is settled, taken off and reported in one call, and when not. -/

/-- After a step the list holds exactly the submitted transfers, and those
settled in the step have left it and their owners have been told. -/
def SettledTogether (d d' : Driver) : Prop :=
  (∀ t ∈ d'.queued, t ∈ d'.engine.transferList ↔ d'.state t = .submitted) ∧
    ∀ t ∈ d.queued, d.state t = .submitted → d'.state t ≠ .submitted →
      t ∉ d'.engine.transferList ∧ ∃ n ∈ d'.notices.drop d.notices.length, n.transfer = t

def seesNoError (d : Driver) : EngineOp → Prop
  | .queue _ => True
  | .service descWriteback reads => d.engine.running = true → d.faulty descWriteback reads = false

def ListedSubmitted (d : Driver) : Prop := ∀ t ∈ d.engine.transferList, d.state t = .submitted

theorem listed_iff {d : Driver} (hd : Sound d) (hl : ListedSubmitted d) :
    ∀ t ∈ d.queued, t ∈ d.engine.transferList ↔ d.state t = .submitted := by
  intro t ht
  refine ⟨hl t,fun hs => ?_⟩
  rw [hd.order] at ht
  rcases List.mem_append.mp ht with ht | ht
  · exact absurd hs (hd.settled t ht)
  · exact ht

theorem ListedSubmitted.serviced {d d' : Driver} {wb : U32} {reads : RegisterReads}
    {gone rest : List TransferId} {t : TransferId} {left : Nat} (hd : Sound d)
    (hl : ListedSubmitted d) (hlist : d.engine.transferList = gone ++ t :: rest)
    (hs : Serviced d wb reads gone t rest left d') (hok : d.faulty wb reads = false) :
    ListedSubmitted d' := by
  have hrest : d'.engine.transferList = rest := by
    rw [hs.list, hok, if_neg Bool.false_ne_true]
  have hn := hd.listNodup
  rw [hlist, List.nodup_append] at hn
  obtain ⟨_,hnt,hdisj⟩ := hn
  intro v hv
  rw [hrest] at hv
  have hvg : v ∉ gone := fun hg => hdisj v hg v (List.mem_cons_of_mem _ hv) rfl
  have hvt : v ≠ t := fun h => (List.nodup_cons.mp hnt).1 (h ▸ hv)
  rw [hs.state_other hvg hvt]
  exact hl v (by rw [hlist]; simp [hv])

theorem settledTogether_step {p : Params} {d d' : Driver} {op : EngineOp} (hd : Sound d)
    (hl : ListedSubmitted d) (hstep : opStep p d op d') :
    (seesNoError d op → ListedSubmitted d' ∧ SettledTogether d d') ∧
      (SettledTogether d d' → seesNoError d op) := by
  have hd' := hd.step hstep
  cases op with
  | queue x =>
    have hq := opStep_queue hd hstep
    have hlist : d'.engine.transferList = d.engine.transferList ++ [d.queued.length] :=
      hq.same.transferList
    have hl' : ListedSubmitted d' := by
      intro v hv
      rw [hlist] at hv
      rcases List.mem_append.mp hv with hv | hv
      · have hmem : v ∈ d.queued := by
          rw [hd.order]
          exact List.mem_append_right _ hv
        rw [Driver.state, hq.old (hd.newId hmem)]
        exact hl v hv
      · rw [List.mem_singleton.mp hv, Driver.state, hq.new]
        rfl
    refine ⟨fun _ => ⟨hl',listed_iff hd' hl',fun t ht hsub hne => absurd ?_ hne⟩,fun _ => trivial⟩
    rw [Driver.state, hq.old (hd.newId ht)]
    exact hsub
  | service wb reads =>
    rcases opStep_service hd hstep with ⟨hrun,rfl⟩ | ⟨hrun,gone,t,rest,left,hsplit,hs⟩
    · refine ⟨fun _ => ⟨hl,listed_iff hd' hl,fun t _ hsub hne => absurd hsub hne⟩,fun _ hr => ?_⟩
      rw [hrun] at hr
      cases hr
    · have hlist := split_cut hsplit
      refine ⟨fun hok => ?_,fun hset _ => ?_⟩
      · have hl' := hl.serviced hd hlist hs (hok hrun)
        refine ⟨hl',listed_iff hd' hl',fun v _ hsub hne => ?_⟩
        -- a transfer that changed its state is among those that left
        have hv : v ∈ gone ++ [t] := by
          by_contra hnot
          rw [List.mem_append, List.mem_singleton, not_or] at hnot
          rw [hs.state_other hnot.1 hnot.2] at hne
          exact hne hsub
        obtain ⟨new,hnew,hmap⟩ := hs.notices
        rw [hok hrun, if_neg Bool.false_ne_true] at hmap
        rw [← hmap] at hv
        obtain ⟨n,hn,hnv⟩ := List.mem_map.mp hv
        refine ⟨hd'.notListed ?_,n,by simpa [hnew] using hn,hnv⟩
        rw [hs.removed, hok hrun, if_neg Bool.false_ne_true]
        exact List.mem_append_right _ (hmap ▸ hv)
      · -- a faulty transfer stays on the list and is no longer submitted
        cases hf : d.faulty wb reads with
        | false => rfl
        | true =>
          have hmem : t ∈ d'.engine.transferList := by
            rw [hs.list, hf, if_pos rfl]
            exact List.mem_cons_self ..
          have hq : t ∈ d'.queued := by
            rw [hd'.order]
            exact List.mem_append_right _ hmem
          have hstate := (hset.1 t hq).mp hmem
          rw [hs.state_final, hf, finalState, if_pos rfl] at hstate
          cases hstate

/-- Transfers are settled and taken off together in every run in which no call on
a running engine inspects an error flag, and in no step in which one does. -/
theorem run_seesNoError {p : Params} {d₀ d : Driver} {ops : List EngineOp} (h₀ : Fresh d₀)
    (r : Run (opStep p) seesNoError d₀ ops d) :
    (∀ t ∈ d.queued, t ∈ d.engine.transferList ↔ d.state t = .submitted) ∧
      ∀ op d', opStep p d op d' → (SettledTogether d d' ↔ seesNoError d op) := by
  have hinit : Sound d₀ ∧ ListedSubmitted d₀ :=
    ⟨h₀.sound,fun t ht => by rw [h₀.list] at ht; cases ht⟩
  have hkeep : ∀ s op t, (Sound s ∧ ListedSubmitted s) → seesNoError s op → opStep p s op t →
      (Sound t ∧ ListedSubmitted t) ∧ SettledTogether s t := by
    rintro s op t ⟨hd,hl⟩ hok hstep
    obtain ⟨hl',hset⟩ := (settledTogether_step hd hl hstep).1 hok
    exact ⟨⟨hd.step hstep,hl'⟩,hset⟩
  have honly : ∀ s op t, (Sound s ∧ ListedSubmitted s) → opStep p s op t → SettledTogether s t →
      seesNoError s op := fun s op t ⟨hd,hl⟩ hstep => (settledTogether_step hd hl hstep).2
  obtain ⟨⟨hd,hl⟩,hiff⟩ := Run.step_iff _ SettledTogether hinit hkeep honly r
  exact ⟨listed_iff hd hl,hiff⟩

theorem run_seesNoError_done : SettledTogether (.first ⟨false,false⟩ .one)
    ((Driver.first ⟨false,false⟩ .one).after ⟨false,false⟩ [.service 0 ⟨6,1⟩]) := by
  have r : Run (opStep ⟨false,false⟩) seesNoError (.created ⟨false,false⟩) [.queue .one] _ :=
    Run.single trivial (first_step _ _)
  refine ((run_seesNoError (fresh_created _) r).2 (.service 0 ⟨6,1⟩) _
    (opStep_after (by decide))).mpr fun _ => ?_
  decide

/-- A read error leaves the failed transfer on the list, and nobody is told. -/
theorem readError_unsettled : ¬ ∀ (d₀ d d' : Driver) (ops : List EngineOp) (op : EngineOp),
    Fresh d₀ → Run (opStep ⟨false,false⟩) anyStep d₀ ops d → opStep ⟨false,false⟩ d op d' →
      SettledTogether d d' := by
  intro hall
  let d₁ := Driver.first ⟨false,false⟩ .one
  have hset := hall _ d₁ (d₁.after ⟨false,false⟩ [.service 0 ⟨0x200,0⟩]) _ _ (fresh_created _)
    (first_run _ _) (opStep_after (by decide))
  have hstate := (hset.1 0 (by decide)).mp (by decide)
  have hfailed : (d₁.after ⟨false,false⟩ [.service 0 ⟨0x200,0⟩]).state 0 = .failed := by decide
  rw [hfailed] at hstate
  cases hstate

def Untouched (d d' : Driver) : Prop :=
  d'.engine.transferList = d.engine.transferList ∧ (∀ t, d'.state t = d.state t) ∧
    d'.engine.descDequeued = d.engine.descDequeued

/-- Whatever a running engine has gone through, a call that reads BUSY without an
error flag and a count short of the transfer that was started never leaves things
alone; and after it the count lies below what is taken for dequeued. -/
theorem busy_releases {p : Params} {d₀ d : Driver} {ops : List EngineOp} (h₀ : Fresh d₀)
    (r : Run (opStep p) anyStep d₀ ops d) (hrun : d.engine.running = true) {wb : U32}
    {reads : RegisterReads} (hread : readsStatus wb = true)
    (hbusy : reads.status.has xdmaStatBusy = true) (herr : reads.status.has errFlags = false)
    {t : TransferId} (hlast : d.started.getLast? = some t) (hcount : serviceCount wb reads < d.need t) :
    (¬ ∃ d', opStep p d (.service wb reads) d' ∧ Untouched d d') ∧
      (writebackCount wb = 0 → serviceCount wb reads < d.engine.descDequeued ∨
        ∃ d', opStep p d (.service wb reads) d' ∧ d'.engine.running = true ∧
          serviceCount wb reads < d'.engine.descDequeued) := by
  have hd := run_sound h₀ r
  have hstatus : serviceStatus d.engine wb reads = reads.status := by
    rw [serviceStatus, if_pos hread]
  have hfaulty : d.faulty wb reads = false := by rw [Driver.faulty, hstatus, herr]
  refine ⟨?_,fun hzero => ?_⟩
  · rintro ⟨d',hstep,hsame,_,_⟩
    rcases opStep_service hd hstep with ⟨hidle,_⟩ | ⟨_,gone,v,rest,left,hsplit,hs⟩
    · rw [hrun] at hidle
      cases hidle
    · have hcut := congrArg List.length (hs.cut (split_cut hsplit))
      rw [hsame, hfaulty] at hcut
      simp at hcut
      omega
  · obtain ⟨u,hu,hprogress⟩ := hd.progress hrun
    obtain rfl : u = t := Option.some.inj (hu.symm.trans hlast)
    rcases hprogress with ⟨hdeq,hhead⟩ | hpast
    · obtain ⟨rest,hcons⟩ : ∃ rest, d.engine.transferList = u :: rest := by
        cases hlist : d.engine.transferList with
        | nil => simp [hlist] at hhead
        | cons v rest => exact ⟨rest,by simpa [hlist] using hhead⟩
      have hreg : serviceCount wb reads = reads.completedDescCount.toNat := by
        simp [serviceCount, hzero]
      have hsplit : split d.need d.engine.transferList
          (pendingCount d.engine (serviceCount wb reads)) =
            ([],u :: rest,serviceCount wb reads) := by
        rw [hreg, pendingCount_fresh hdeq, hcons]
        exact split_of_le _ (hreg ▸ Nat.le_of_lt hcount)
      obtain ⟨d',hcall,hs⟩ := engineService_spec (p := p) hrun hd.listPlain hd.shutdown hsplit
      have hstops : d.stops wb reads = false := by
        simp [Driver.stops, servicesShutdown, hstatus, hbusy, hzero]
      refine Or.inr ⟨d',⟨_,hcall⟩,?_,?_⟩
      · rw [hs.running, hstops]
        rfl
      · rw [hs.descDequeued, hstops, hfaulty, hdeq]
        simpa using hcount
    · exact Or.inl (Nat.lt_of_lt_of_le hcount hpast)

theorem busy_releases_half : ¬ ∃ d',
    opStep ⟨false,false⟩ (.first ⟨false,false⟩ .two) (.service 0 ⟨xdmaStatBusy,1⟩) d' ∧
    Untouched (.first ⟨false,false⟩ .two) d' := by
  exact (busy_releases (fresh_created _) (first_run _ _) (by decide) (by decide) (by decide) (by decide)
    (t := 0) (by decide) (by decide)).1

theorem busy_not_untouched : ¬ ∀ (d₀ d : Driver) (ops : List EngineOp) (reads : RegisterReads)
    (t : TransferId), Fresh d₀ → Run (opStep ⟨false,false⟩) anyStep d₀ ops d →
      d.engine.running = true → reads.status.has xdmaStatBusy = true →
      reads.status.has errFlags = false → d.started.getLast? = some t →
      reads.completedDescCount.toNat < d.need t →
      ∀ d', opStep ⟨false,false⟩ d (.service 0 reads) d' → Untouched d d' := by
  intro hall
  let d₁ := Driver.first ⟨false,false⟩ .two
  have hsame := hall _ d₁ _ ⟨xdmaStatBusy,1⟩ 0 (fresh_created _) (first_run _ _) (by decide)
    (by decide) (by decide) (by decide) (by decide) (d₁.after ⟨false,false⟩ [.service 0 ⟨xdmaStatBusy,1⟩])
    (opStep_after (by decide))
  exact absurd hsame.1 (by decide)

/-- The call returns, and completes at most the transfer the engine was started
with, and that one only without an error flag. -/
def CompletesOnly (p : Params) (d : Driver) (t : TransferId) (reads : RegisterReads) : Prop :=
  ∃ d', opStep p d (.service 0 reads) d' ∧ ∀ v, d'.state v = .completed →
    d.state v = .completed ∨ (v = t ∧ reads.status.has errFlags = false)

section firstCall

variable {p : Params} {d : Driver} {reads : RegisterReads} {t : TransferId} {rest : List TransferId}
  (hd : Sound d) (hrun : d.engine.running = true) (hdeq : d.engine.descDequeued = 0)
  (hlist : d.engine.transferList = t :: rest)
include hd hrun hdeq hlist

theorem completesOnly_within (hle : reads.completedDescCount.toNat ≤ d.need t) :
    CompletesOnly p d t reads := by
  have hsplit : split d.need d.engine.transferList (pendingCount d.engine (serviceCount 0 reads)) =
      ([],t :: rest,reads.completedDescCount.toNat) := by
    rw [serviceCount_interrupt, pendingCount_fresh hdeq, hlist, split_of_le _ hle]
  obtain ⟨d',hcall,hs⟩ := engineService_spec (p := p) hrun hd.listPlain hd.shutdown hsplit
  refine ⟨d',⟨_,hcall⟩,fun v hv => ?_⟩
  by_cases hvt : v = t
  · subst v
    rw [hs.state_final, faulty_interrupt] at hv
    cases herr : reads.status.has errFlags with
    | true => simp [herr, finalState] at hv
    | false => exact Or.inr ⟨rfl,rfl⟩
  · rw [hs.state_other List.not_mem_nil hvt] at hv
    exact Or.inl hv

theorem completesOnly_next {u : TransferId} {us : List TransferId} (hrest : rest = u :: us)
    (hgt : d.need t < reads.completedDescCount.toNat) (herr : reads.status.has errFlags = false)
    (hlt : reads.completedDescCount.toNat < d.need t+d.need u) : CompletesOnly p d t reads := by
  have hsplit : split d.need d.engine.transferList (pendingCount d.engine (serviceCount 0 reads)) =
      ([t],u :: us,reads.completedDescCount.toNat-d.need t) := by
    rw [serviceCount_interrupt, pendingCount_fresh hdeq, hlist, hrest, split_of_lt _ hgt,
      split_of_le _ (by omega)]
  obtain ⟨d',hcall,hs⟩ := engineService_spec (p := p) hrun hd.listPlain hd.shutdown hsplit
  refine ⟨d',⟨_,hcall⟩,fun v hv => ?_⟩
  by_cases hvu : v = u
  · subst v
    rw [hs.state_final, faulty_interrupt, herr, finalState, if_neg Bool.false_ne_true,
      if_pos (by omega)] at hv
    cases hv
  · by_cases hvt : v = t
    · exact Or.inr ⟨hvt,herr⟩
    · rw [hs.state_other (by simpa using hvt) hvu] at hv
      exact Or.inl hv

theorem completesOnly_beyond (hgt : d.need t < reads.completedDescCount.toNat)
    (h : CompletesOnly p d t reads) : reads.status.has errFlags = false ∧
      ∃ u us, rest = u :: us ∧ reads.completedDescCount.toNat < d.need t+d.need u := by
  obtain ⟨d',hstep,hall⟩ := h
  rcases opStep_service hd hstep with ⟨hidle,_⟩ | ⟨_,gone,v,rest',left,hsplit,hs⟩
  · rw [hrun] at hidle
    cases hidle
  rw [serviceCount_interrupt, pendingCount_fresh hdeq, hlist, split_of_lt _ hgt] at hsplit
  simp only [Prod.mk.injEq] at hsplit
  obtain ⟨rfl,hsplit⟩ := hsplit
  have hsplit : split d.need rest (reads.completedDescCount.toNat-d.need t) =
    ((split d.need rest (reads.completedDescCount.toNat-d.need t)).1,v :: rest',left) :=
      Prod.ext rfl hsplit
  obtain ⟨gone,hgone⟩ : ∃ gone, gone =
    (split d.need rest (reads.completedDescCount.toNat-d.need t)).1 := ⟨_,rfl⟩
  rw [← hgone] at hsplit hs
  have hrest : rest = gone ++ v :: rest' := split_cut hsplit
  have hn := hd.listNodup
  rw [hlist, hrest, List.nodup_cons] at hn
  obtain ⟨htn,hn⟩ := hn
  have hvt : v ≠ t := fun h => htn (by rw [h]; simp)
  have hlisted : ∀ w ∈ d.engine.transferList, d'.state w = .completed →
      w = t ∧ reads.status.has errFlags = false := fun w hw hc =>
    (hall w hc).resolve_left (hd.listed w hw)
  have hpaid : d'.state t = .completed := hs.state_gone (List.mem_cons_self ..) hvt.symm
  have herr := (hlisted t (by rw [hlist]; simp) hpaid).2
  have hnil : gone = [] := by
    cases hg : gone with
    | nil => rfl
    | cons g gs =>
      -- a second transfer paid for is completed without having been started
      have hgv : g ≠ v := by
        rw [hg, List.nodup_append] at hn
        exact hn.2.2 g (List.mem_cons_self ..) v (List.mem_cons_self ..)
      have hgl : g ∈ d.engine.transferList := by rw [hlist, hrest, hg]; simp
      have hdone : d'.state g = .completed := hs.state_gone (by rw [hg]; simp) hgv
      have hgt' := (hlisted g hgl hdone).1
      exact absurd (by rw [hg, hgt']; simp) htn
  subst hnil
  refine ⟨herr,v,rest',hrest,?_⟩
  have hspent := split_spent d.need hsplit
  rw [hrest, List.nil_append, split_of_le _ hspent] at hsplit
  by_contra hge
  have hdone : d'.state v = .completed := by
    have hleft : left = reads.completedDescCount.toNat-d.need t := by
      cases hsplit
      rfl
    rw [hs.state_final, faulty_interrupt, herr, finalState, if_neg Bool.false_ne_true,
      if_neg (by omega)]
  exact hvt (hlisted v (by rw [hlist, hrest]; simp) hdone).1

end firstCall

/-- What arbitrary register contents do to the first call of a run of the engine. -/
theorem firstCall_completesOnly {p : Params} {d₀ d : Driver} {ops : List EngineOp} (h₀ : Fresh d₀)
    (r : Run (opStep p) anyStep d₀ ops d) (hrun : d.engine.running = true)
    (hdeq : d.engine.descDequeued = 0) (reads : RegisterReads) :
    ∃ t rest, d.engine.transferList = t :: rest ∧ d.started.getLast? = some t ∧
      (CompletesOnly p d t reads ↔ reads.completedDescCount.toNat ≤ d.need t ∨
        (reads.status.has errFlags = false ∧ ∃ u us, rest = u :: us ∧
          reads.completedDescCount.toNat < d.need t+d.need u)) := by
  have hd := run_sound h₀ r
  obtain ⟨t,hlast,hprogress⟩ := hd.progress hrun
  have hhead : d.engine.transferList.head? = some t := by
    rcases hprogress with ⟨_,hhead⟩ | hpast
    · exact hhead
    · have hone := hd.nonempty t (hd.known t (List.mem_of_getLast? hlast))
      omega
  obtain ⟨rest,hlist⟩ : ∃ rest, d.engine.transferList = t :: rest := by
    cases hcons : d.engine.transferList with
    | nil => simp [hcons] at hhead
    | cons v rest => exact ⟨rest,by simpa [hcons] using hhead⟩
  refine ⟨t,rest,hlist,hlast,fun h => ?_,fun h => ?_⟩
  · by_cases hle : reads.completedDescCount.toNat ≤ d.need t
    · exact Or.inl hle
    · exact Or.inr (completesOnly_beyond hd hrun hdeq hlist (Nat.lt_of_not_le hle) h)
  · rcases h with hle | ⟨herr,u,us,hrest,hlt⟩
    · exact completesOnly_within hd hrun hdeq hlist hle
    · by_cases hle : reads.completedDescCount.toNat ≤ d.need t
      · exact completesOnly_within hd hrun hdeq hlist hle
      · exact completesOnly_next hd hrun hdeq hlist hrest (Nat.lt_of_not_le hle) herr hlt

theorem firstCall_completesOnly_one : ∃ t rest,
    (Driver.first ⟨false,false⟩ .one).engine.transferList = t :: rest ∧
    CompletesOnly ⟨false,false⟩ (.first ⟨false,false⟩ .one) t ⟨6,0⟩ := by
  obtain ⟨t,rest,hlist,_,hiff⟩ :=
    firstCall_completesOnly (fresh_created _) (first_run ⟨false,false⟩ .one) (by decide) (by decide) ⟨6,0⟩
  exact ⟨t,rest,hlist,hiff.mpr (Or.inl (Nat.zero_le _))⟩

/-- A dead link: both registers read as all ones, and an assertion fires. -/
theorem allOnes_trips : ¬ ∀ (d₀ d : Driver) (ops : List EngineOp) (reads : RegisterReads)
    (t : TransferId), Fresh d₀ → Run (opStep ⟨false,false⟩) anyStep d₀ ops d →
      d.engine.running = true → d.engine.descDequeued = 0 → d.started.getLast? = some t →
      CompletesOnly ⟨false,false⟩ d t reads := by
  intro hall
  let d₁ := Driver.first ⟨false,false⟩ .one
  obtain ⟨d',⟨rc,hcall⟩,_⟩ := hall _ d₁ _ ⟨0xffffffff,0xffffffff⟩ 0 (fresh_created _)
    (first_run _ _) (by decide) (by decide) (by decide)
  have hbug : (applyOp ⟨false,false⟩ d₁ (.service 0 ⟨0xffffffff,0xffffffff⟩)).isOk = false := by
    decide
  rw [hcall] at hbug
  cases hbug

/-! A polled completion is judged by the status of an earlier call. -/

theorem polled_writeback {n : Nat} (h1 : 1 ≤ n) (h : n < 2^24) :
    writebackCount (BitVec.ofNat 32 n) = n ∧ readsStatus (BitVec.ofNat 32 n) = false := by
  have hmask : wbCountMask.toNat = 2^24-1 := by decide
  have hn : (BitVec.ofNat 32 n).toNat = n := by
    rw [BitVec.toNat_ofNat]
    omega
  have hcount : writebackCount (BitVec.ofNat 32 n) = n := by
    rw [writebackCount, BitVec.toNat_and, hmask, Nat.and_two_pow_sub_one_eq_mod, hn]
    omega
  have herr : writebackError (BitVec.ofNat 32 n) = false := by
    have hmask : wbErrMask = BitVec.twoPow 32 31 := by decide
    have htop : (BitVec.ofNat 32 n).getLsbD 31 = false := by
      rw [BitVec.getLsbD, hn]
      exact Nat.testBit_lt_two_pow (by omega)
    have hbit : BitVec.ofNat 32 n &&& wbErrMask = 0 := by
      rw [hmask, BitVec.and_twoPow, htop, if_neg Bool.false_ne_true]
      rfl
    simp [writebackError, U32.has, hbit]
  have hne : (n == 0) = false := beq_eq_false_iff_ne.mpr (by omega)
  exact ⟨hcount,by rw [readsStatus, hcount, herr, hne]; rfl⟩

/-- A transfer that is queued alone on the idle engine after any history, and
whose descriptors are all written back, completes and leaves the list if and only
if the status that was read last in that history has no error flag. -/
theorem polled_outcome {p : Params} {d₀ d d₁ : Driver} {ops : List EngineOp} (h₀ : Fresh d₀)
    (r : Run (opStep p) anyStep d₀ ops d) (hidle : d.engine.running = false) {x : PlainTransfer}
    (hnum : x.transfer.descNum < 2^24) (hqueue : opStep p d (.queue x) d₁) (reads : RegisterReads) :
    (∃ d₂, opStep p d₁ (.service (BitVec.ofNat 32 x.transfer.descNum) reads) d₂ ∧
      d₂.state d.queued.length = .completed ∧ d.queued.length ∉ d₂.engine.transferList) ↔
      d.engine.status.has errFlags = false := by
  have hd := run_sound h₀ r
  have hd₁ := hd.step hqueue
  have hq := opStep_queue hd hqueue
  obtain ⟨hcount,hread⟩ := polled_writeback x.nonempty hnum
  have hneed : d₁.need d.queued.length = x.transfer.descNum := by
    rw [Driver.need, hq.new, inState_descNum]
  have hlist : d₁.engine.transferList = [d.queued.length] := by
    have h : d₁.engine.transferList = d.engine.transferList ++ [d.queued.length] :=
      hq.same.transferList
    rw [h, hd.idle hidle, List.nil_append]
  have hdeq : d₁.engine.descDequeued = 0 := by
    have h : d₁.engine.descDequeued = if d.engine.running then d.engine.descDequeued else 0 :=
      hq.descDequeued
    rw [h, hidle, if_neg Bool.false_ne_true]
  have hstatus : d₁.engine.status = d.engine.status := hq.status
  have hservice : serviceCount (BitVec.ofNat 32 x.transfer.descNum) reads = x.transfer.descNum := by
    have hpos : x.transfer.descNum ≠ 0 := Nat.ne_of_gt x.nonempty
    simp [serviceCount, hcount, hpos]
  have hsplit : split d₁.need d₁.engine.transferList (pendingCount d₁.engine
      (serviceCount (BitVec.ofNat 32 x.transfer.descNum) reads)) =
        ([],[d.queued.length],x.transfer.descNum) := by
    have hpend : pendingCount d₁.engine x.transfer.descNum = x.transfer.descNum := by
      have hsmall := x.small
      rw [pendingCount, hdeq]
      omega
    rw [hservice, hpend, hlist, split_of_le _ (Nat.le_of_eq hneed.symm)]
  have hfaulty : d₁.faulty (BitVec.ofNat 32 x.transfer.descNum) reads =
      d.engine.status.has errFlags := by
    rw [Driver.faulty, serviceStatus, hread, if_neg Bool.false_ne_true, hstatus]
  obtain ⟨d₂,hcall,hs⟩ := engineService_spec (p := p) hq.running hd₁.listPlain hd₁.shutdown hsplit
  have hfinal := hs.state_final
  rw [hfaulty, hneed] at hfinal
  refine ⟨?_,fun hclean => ⟨d₂,⟨_,hcall⟩,?_,?_⟩⟩
  · rintro ⟨d₂',hcall',hdone,_⟩
    rw [opStep_unique hcall' ⟨_,hcall⟩, hfinal] at hdone
    cases herr : d.engine.status.has errFlags with
    | true => simp [herr, finalState] at hdone
    | false => rfl
  · rw [hfinal, hclean, finalState, if_neg Bool.false_ne_true, if_neg (Nat.lt_irrefl _)]
  · rw [hs.list, hfaulty, hclean]
    exact List.not_mem_nil

theorem polled_outcome_first : ∃ d₂,
    opStep ⟨true,false⟩ (.first ⟨true,false⟩ .three) (.service 3 ⟨0,0⟩) d₂ ∧
    d₂.state 0 = .completed ∧ 0 ∉ d₂.engine.transferList :=
  (polled_outcome (fresh_created _) .nil rfl (x := .three) (by decide) (first_step _ _) ⟨0,0⟩).mpr rfl

/-- Three pollers wait for 2, 1 and 2 descriptors, the first write-back of 2 is
taken by both that wait for it, and the third times out on an engine that is idle
by then and reads an error. -/
def erroredHistory : List EngineOp :=
  [.queue .two,.queue .one,.queue .two,.service 2 ⟨0,0⟩,.service 2 ⟨0,0⟩,.service 0 ⟨0x200,0⟩]

theorem erroredHistory_fails : ¬ ∀ (d₀ d d₁ : Driver) (ops : List EngineOp) (x : PlainTransfer)
    (reads : RegisterReads), Fresh d₀ → Run (opStep ⟨true,false⟩) anyStep d₀ ops d →
      d.engine.running = false → x.transfer.descNum < 2^24 → opStep ⟨true,false⟩ d (.queue x) d₁ →
      ∃ d₂, opStep ⟨true,false⟩ d₁ (.service (BitVec.ofNat 32 x.transfer.descNum) reads) d₂ ∧
        d₂.state d.queued.length = .completed ∧ d.queued.length ∉ d₂.engine.transferList := by
  intro hall
  let d := (Driver.created ⟨true,false⟩).after ⟨true,false⟩ erroredHistory
  have r : Run (opStep ⟨true,false⟩) anyStep (.created ⟨true,false⟩) erroredHistory d :=
    run_after (by decide)
  obtain ⟨d₂,hcall,hdone,_⟩ := hall _ d (d.after ⟨true,false⟩ [.queue .one]) _ .one ⟨0,0⟩
    (fresh_created _) r (by decide) (by decide) (opStep_after (by decide))
  rw [opStep_unique hcall (opStep_after (by decide))] at hdone
  exact absurd hdone (by decide)

end DmaCamera
