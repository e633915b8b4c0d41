import DmaCamera.Cyclic
import DmaCamera.EngineRuns
import DmaCamera.TransferData
set_option autoImplicit false

namespace DmaCamera
open Countdown Runs

/-! Any number of calls of `transfer_data` on one engine, the device that writes
back to the memory they poll, and the interrupt work. -/

def wbMonitorRound (expectedWb descWb : U32) (timeout : Bool) : Option U32 :=
  if expectedWb = 0 then some 0
  else if descWb.has wbErrMask || descWb = expectedWb then some descWb
  else if timeout then
    some (if descWb &&& wbCountMask > expectedWb then expectedWb ||| wbErrMask else descWb)
  else none

inductive CallerPc where
  | loop
  | created (x : PlainTransfer)
  | queued (t : TransferId)
  | polling (t : TransferId) (expected : U32)
  | polled (t : TransferId) (descWb : U32)
  | monitored (t : TransferId) (rc : Int)
  | returned

def CallerPc.own : CallerPc → Option TransferId
  | .queued t => some t
  | .polling t _ => some t
  | .polled t _ => some t
  | .monitored t _ => some t
  | _ => none

structure Caller where
  pc : CallerPc
  data : DataState

structure DataSystem where
  driver : Driver
  callers : Nat → Caller

def DataSystem.setCaller (s : DataSystem) (d : Driver) (i : Nat) (c : Caller) : DataSystem :=
  ⟨d,Function.update s.callers i c⟩

/-- What happens next: caller `i` goes on, with what it meets there, the device
writes back a count, or the interrupt work runs. -/
inductive DataOp where
  | create (i : Nat) (kernel : Platform)
  | queue (i : Nat)
  | monitor (i : Nat)
  | poll (i : Nat) (timeout : Bool)
  | service (i : Nat) (o : Observed)
  | wait (i : Nat) (signal : Bool)
  | account (i : Nat) (status : U32)
  | writeBack (value : U32)
  | interrupt (o : Observed)

def PlainTransfer.of? (x : XdmaTransfer) : Option PlainTransfer :=
  if h : x.cyclic = false ∧ 1 ≤ x.descNum ∧ x.descNum < 2^31 then some ⟨x,h.1,h.2.1,h.2.2⟩ else none

/-- No transfer on the list has been freed; otherwise the next call that walks
the list follows a dangling pointer. -/
def Driver.intact (d : Driver) : Bool := d.engine.transferList.all fun t => !d.destroyed.contains t

def leaveTransfer (d : Driver) (t : TransferId) (rc : Int) (status : U32) : Driver :=
  if d.state t ≠ .submitted then { d with destroyed := d.destroyed ++ [t] }
  else if rc ≠ 0 then d.withStatus status
  else d

def createNext (s : DataSystem) (i : Nat) (data : DataState) (kernel : Platform) :
    Option DataSystem :=
  if data.res = 0 ∧ 0 < data.remaining then
    match data.create kernel (engineMode s.driver.engine) with
    | .error _ => none
    | .ok none => some (s.setCaller s.driver i ⟨.loop,{ data with remaining := 0, res := -eIo }⟩)
    | .ok (some x) => (PlainTransfer.of? (markLast x data)).map fun x' =>
      s.setCaller s.driver i ⟨.created x',data.build x⟩
  else some (s.setCaller s.driver i ⟨.returned,data⟩)

/-- The lock of the engine makes one step of what it protects. -/
def dataNext (p : Params) (s : DataSystem) : DataOp → Option DataSystem
  | .create i kernel => match s.callers i with
    | ⟨.loop,data⟩ => createNext s i data kernel
    | _ => none
  | .queue i => match s.callers i with
    | ⟨.created x,data⟩ =>
      if s.driver.intact then
        match applyOp p s.driver (.queue x) with
        | .ok (d,_) => some (s.setCaller d i ⟨.queued s.driver.queued.length,data⟩)
        | .error _ => none
      else none
    | _ => none
  | .monitor i => match s.callers i with
    | ⟨.queued t,data⟩ =>
      let expected := BitVec.ofNat 32 (s.driver.need t)
      if p.pollMode then
        some (s.setCaller s.driver i
          ⟨if expected &&& wbCountMask ≠ expected then .monitored t (-1) else .polling t expected,
            data⟩)
      else none
    | _ => none
  | .poll i timeout => match s.callers i with
    | ⟨.polling t expected,data⟩ =>
      (wbMonitorRound expected s.driver.engine.pollModeWriteback timeout).map fun descWb =>
        s.setCaller s.driver i ⟨.polled t descWb,data⟩
    | _ => none
  | .service i o => match s.callers i with
    | ⟨.polled t descWb,data⟩ =>
      if s.driver.intact then
        match engineServiceLocked p s.driver descWb o with
        | .ok (some (d,rc)) => some (s.setCaller d i ⟨.monitored t rc,data⟩)
        | _ => none
      else none
    | _ => none
  -- woken once the state has changed, or interrupted by a signal before that
  | .wait i signal => match s.callers i with
    | ⟨.queued t,data⟩ =>
      if p.pollMode = false ∧ (signal = true ↔ s.driver.state t = .submitted) then
        some (s.setCaller s.driver i ⟨.monitored t (if signal then -eRestartSys else 0),data⟩)
      else none
    | _ => none
  | .account i status => match s.callers i with
    | ⟨.monitored t rc,data⟩ => some (s.setCaller (leaveTransfer s.driver t rc status) i
        ⟨.loop,data.account (chunkVerdict (s.driver.state t) rc)⟩)
    | _ => none
  | .writeBack value => some { s with
      driver := { s.driver with engine := { s.driver.engine with pollModeWriteback := value } } }
  | .interrupt o =>
    if p.pollMode = false ∧ s.driver.intact = true then
      match engineServiceLocked p s.driver 0 o with
      | .ok (some (d,_)) => some { s with driver := d }
      | _ => none
    else none

/-- Only a chunk whose own transfer is completed is counted, in `done` or in `*pos`. -/
def CountsOnlyCompleted (s s' : DataSystem) : Prop :=
  ∀ i, (s'.callers i).data.done ≠ (s.callers i).data.done ∨
      (s'.callers i).data.pos ≠ (s.callers i).data.pos →
    ∃ t, (s.callers i).pc.own = some t ∧ s.driver.state t = .completed

def CountsSafely (p : Params) (s : DataSystem) : Prop :=
  ∀ op s', stepOf (dataNext p) s op s' → CountsOnlyCompleted s s'

/-- The count a call works with pays for all transfers in front of `t`. -/
def ReachesOwn (d : Driver) (descWb : U32) (reads : RegisterReads) (t : TransferId) : Prop :=
  ∃ front back, d.engine.transferList = front ++ t :: back ∧
    (front = [] ∨ total d.need front < pendingCount d.engine (serviceCount descWb reads))

def reachesOwn (s : DataSystem) : DataOp → Prop
  | .service i o => ∀ t descWb, (s.callers i).pc = .polled t descWb →
      s.driver.state t = .submitted → writebackError descWb = false →
      ReachesOwn s.driver descWb o.reads t
  | _ => True

structure Starting (s : DataSystem) : Prop where
  fresh : Fresh s.driver
  notCyclic : s.driver.engine.rxTransferCyclic = none
  callers : ∀ i, ∃ addr count pos, s.callers i = ⟨.loop,⟨0,0,addr,count,pos,[]⟩⟩

def Later (d d' : Driver) : Prop := ∀ t ∈ d.queued, t ∈ d'.queued ∧
  (d.state t ≠ .submitted → d'.state t ≠ .submitted)

theorem Later.refl (d : Driver) : Later d d := fun _ ht => ⟨ht,id⟩

theorem Serviced.state_keep {d d' : Driver} {wb : U32} {reads : RegisterReads}
    {gone rest : List TransferId} {t : TransferId} {left : Nat}
    (h : Serviced d wb reads gone t rest left d') {v : TransferId}
    (hv : d.state v ≠ .submitted ∨ v ∈ gone ∨ v = t) : d'.state v ≠ .submitted := by
  by_cases hvt : v = t
  · rw [hvt, h.state_final]
    exact finalState_settled _ _ _
  · by_cases hvg : v ∈ gone
    · simp [h.state_gone hvg hvt]
    · rw [h.state_other hvg hvt]
      simpa [hvt, hvg] using hv

theorem opStep_later {p : Params} {d d' : Driver} {op : EngineOp} (hd : Sound d)
    (h : opStep p d op d') : Later d d' ∧ d'.engine.rxTransferCyclic = d.engine.rxTransferCyclic := by
  cases op with
  | queue x =>
    have hq := opStep_queue hd h
    refine ⟨fun t ht => ⟨?_,fun hs => ?_⟩,hq.same.rxTransferCyclic⟩
    · rw [hq.queued]
      exact List.mem_append_left _ ht
    · rw [Driver.state, hq.old (hd.newId ht)]
      exact hs
  | service wb reads =>
    rcases opStep_service hd h with ⟨_,rfl⟩ | ⟨_,gone,u,rest,left,_,hs⟩
    · exact ⟨Later.refl d,rfl⟩
    · exact ⟨fun t ht => ⟨hs.queued.symm ▸ ht,fun h => hs.state_keep (Or.inl h)⟩,
        hs.same.rxTransferCyclic⟩

theorem engineService_rc {p : Params} {d d' : Driver} {wb : U32} {reads : RegisterReads} {rc : Int}
    (hrun : d.engine.running = true) (h : engineService p d wb reads = .ok (d',rc)) :
    rc = if writebackError wb then -1 else 0 := by
  simp only [engineService, hrun, Bool.not_true, Bool.false_eq_true, if_false] at h
  repeat' split at h
  all_goals cases h
  all_goals simp_all

theorem Sound.split_list {d : Driver} (hd : Sound d) {t : TransferId} (ht : t ∈ d.queued)
    (hs : d.state t = .submitted) :
    d.engine.running = true ∧ ∃ front back, d.engine.transferList = front ++ t :: back := by
  rw [hd.order] at ht
  have hmem : t ∈ d.engine.transferList := by
    rcases List.mem_append.mp ht with ht | ht
    · exact absurd hs (hd.settled t ht)
    · exact ht
  refine ⟨?_,List.append_of_mem hmem⟩
  by_contra hrun
  rw [hd.idle (Bool.eq_false_iff.mpr hrun)] at hmem
  cases hmem

/-- A call reports success with `t` still submitted unless it reaches `t`. -/
theorem engineService_own {p : Params} {d d' : Driver} {wb : U32} {reads : RegisterReads} {rc : Int}
    {t : TransferId} (hd : Sound d) (ht : t ∈ d.queued)
    (h : engineService p d wb reads = .ok (d',rc)) :
    (rc = 0 → d'.state t ≠ .submitted) ↔
      (d.state t = .submitted → writebackError wb = false → ReachesOwn d wb reads t) := by
  have hstep : opStep p d (.service wb reads) d' := ⟨rc,h⟩
  by_cases hsub : d.state t = .submitted
  · obtain ⟨hrun,front,back,hlist⟩ := hd.split_list ht hsub
    have hrc := engineService_rc hrun h
    rcases opStep_service hd hstep with ⟨hidle,_⟩ | ⟨_,gone,u,rest,left,hsplit,hs⟩
    · simp [hrun] at hidle
    · cases herr : writebackError wb with
      | true => simp [hrc, herr]
      | false =>
        have hrc₀ : rc = 0 := by simpa [herr] using hrc
        refine ⟨fun hset _ _ => ?_,fun hreach _ => ?_⟩
        · by_cases hc : front = [] ∨
              total d.need front < pendingCount d.engine (serviceCount wb reads)
          · exact ⟨front,back,hlist,hc⟩
          · -- the count stops in front of `t`, which is then left alone
            rw [not_or, Nat.not_lt] at hc
            obtain ⟨gone',u',rest',left',hsplit',hfront⟩ := split_short d.need hlist hc.1 hc.2
            rw [hsplit] at hsplit'
            cases hsplit'
            have hn := hd.listNodup
            rw [hlist, hfront] at hn
            have hnot : t ∉ gone ++ u :: rest' := fun hm =>
              (List.nodup_append.mp hn).2.2 t hm t (List.mem_cons_self ..) rfl
            simp only [List.mem_append, List.mem_cons, not_or] at hnot
            refine absurd ?_ (hset hrc₀)
            rw [hs.state_other hnot.1 hnot.2.1]
            exact hsub
        · obtain ⟨front',back',hlist',hc⟩ := hreach hsub rfl
          have hmem := split_reaches d.need hlist' hc
          rw [hsplit] at hmem
          simp only [List.head?_cons, Option.some.injEq] at hmem
          exact hs.state_keep (Or.inr (hmem.imp id Eq.symm))
  · refine ⟨fun _ hs => absurd hs hsub,fun _ _ => ?_⟩
    exact ((opStep_later hd hstep).1 t ht).2 hsub

/-! What holds between the steps of the callers. -/

structure Caller.Steady (d : Driver) (c : Caller) : Prop where
  owned : ∀ t, c.pc.own = some t → t ∈ d.queued
  more : (∃ x, c.pc = .created x) ∨ (∃ t, c.pc.own = some t) → 0 < c.data.remaining
  settled : ∀ t, c.pc = .monitored t 0 → d.state t ≠ .submitted

theorem Caller.Steady.later {d d' : Driver} {c : Caller} (h : c.Steady d) (hl : Later d d') :
    c.Steady d' :=
  ⟨fun t ht => (hl t (h.owned t ht)).1,h.more,fun t ht =>
    (hl t (h.owned t (congrArg CallerPc.own ht))).2 (h.settled t ht)⟩

structure DataSystem.Steady (s : DataSystem) : Prop where
  sound : Sound s.driver
  notCyclic : s.driver.engine.rxTransferCyclic = none
  callers : ∀ i, (s.callers i).Steady s.driver

theorem DataSystem.Steady.set {s : DataSystem} {d : Driver} {i : Nat} {c : Caller} (h : s.Steady)
    (hd : Sound d) (hc : d.engine.rxTransferCyclic = none) (hl : Later s.driver d)
    (hcaller : c.Steady d) : (s.setCaller d i c).Steady := by
  refine ⟨hd,hc,fun j => ?_⟩
  by_cases hj : j = i
  · subst j
    simpa [setCaller] using hcaller
  · simpa [setCaller, hj] using (h.callers j).later hl

theorem Starting.steady {s : DataSystem} (h : Starting s) : s.Steady := by
  refine ⟨h.fresh.sound,h.notCyclic,fun i => ?_⟩
  obtain ⟨addr,count,pos,hi⟩ := h.callers i
  rw [hi]
  exact ⟨by simp [CallerPc.own],by simp [CallerPc.own],by simp⟩

theorem leaveTransfer_sound {d : Driver} (h : Sound d) (t : TransferId) (rc : Int) (status : U32) :
    Sound (leaveTransfer d t rc status) ∧ Later d (leaveTransfer d t rc status) ∧
      (leaveTransfer d t rc status).engine.rxTransferCyclic = d.engine.rxTransferCyclic := by
  unfold leaveTransfer
  split
  · exact ⟨⟨h.order,h.ids,h.plain,h.nonempty,h.shutdown,h.listed,h.settled,h.known,h.behind,h.idle,
      h.progress,h.notified⟩,fun _ ht => ⟨ht,id⟩,rfl⟩
  · split
    · exact ⟨h.withStatus status,fun _ ht => ⟨ht,id⟩,rfl⟩
    · exact ⟨h,Later.refl d,rfl⟩

theorem DataSystem.Steady.service {p : Params} {s : DataSystem} {d : Driver} {descWb : U32}
    {o : Observed} {rc : Int} (h : s.Steady)
    (hcall : engineServiceLocked p s.driver descWb o = .ok (some (d,rc))) :
    engineService p s.driver descWb o.reads = .ok (d,rc) ∧ Sound d ∧
      d.engine.rxTransferCyclic = none ∧ Later s.driver d := by
  have hr := engineServiceLocked_ok h.notCyclic hcall
  have hstep : opStep p s.driver (.service descWb o.reads) d := ⟨rc,hr⟩
  obtain ⟨hl,hrx⟩ := opStep_later h.sound hstep
  exact ⟨hr,h.sound.step hstep,hrx.trans h.notCyclic,hl⟩

theorem createNext_steady {s s' : DataSystem} {i : Nat} {data : DataState} {kernel : Platform}
    (h : s.Steady) (hn : createNext s i data kernel = some s') : s'.Steady := by
  unfold createNext at hn
  split at hn
  · rename_i hmore
    split at hn
    · cases hn
    · cases hn
      exact h.set h.sound h.notCyclic (Later.refl _)
        ⟨by simp [CallerPc.own],by simp [CallerPc.own],by simp⟩
    · obtain ⟨x',_,rfl⟩ := Option.map_eq_some_iff.mp hn
      exact h.set h.sound h.notCyclic (Later.refl _)
        ⟨by simp [CallerPc.own],fun _ => hmore.2,by simp⟩
  · cases hn
    exact h.set h.sound h.notCyclic (Later.refl _)
      ⟨by simp [CallerPc.own],by simp [CallerPc.own],by simp⟩

theorem DataSystem.Steady.step {p : Params} {s s' : DataSystem} {op : DataOp} (h : s.Steady)
    (hok : reachesOwn s op) (hstep : stepOf (dataNext p) s op s') : s'.Steady := by
  cases op with
  | create i kernel =>
    simp only [stepOf, dataNext] at hstep
    split at hstep
    · exact createNext_steady h hstep
    · cases hstep
  | queue i =>
    simp only [stepOf, dataNext] at hstep
    split at hstep
    · rename_i x data hpc
      have hi := h.callers i
      rw [hpc] at hi
      split at hstep
      · split at hstep
        · rename_i d rc hcall
          cases hstep
          have hq : opStep p s.driver (.queue x) d := ⟨rc,hcall⟩
          obtain ⟨hl,hrx⟩ := opStep_later h.sound hq
          refine h.set (h.sound.step hq) (hrx.trans h.notCyclic) hl ⟨?_,fun _ => ?_,by simp⟩
          · rintro t ⟨⟩
            rw [(opStep_queue h.sound hq).queued]
            exact List.mem_append_right _ (List.mem_singleton_self _)
          · exact hi.more (Or.inl ⟨x,rfl⟩)
        · cases hstep
      · cases hstep
    · cases hstep
  | monitor i =>
    simp only [stepOf, dataNext] at hstep
    split at hstep
    · rename_i t data hpc
      have hi := h.callers i
      rw [hpc] at hi
      split at hstep
      · cases hstep
        refine h.set h.sound h.notCyclic (Later.refl _) ⟨?_,fun _ => hi.more (Or.inr ⟨t,rfl⟩),?_⟩
        · split <;> exact fun _ hv => hi.owned _ hv
        · split <;> simp
      · cases hstep
    · cases hstep
  | poll i timeout =>
    simp only [stepOf, dataNext] at hstep
    split at hstep
    · rename_i t expected data hpc
      have hi := h.callers i
      rw [hpc] at hi
      obtain ⟨descWb,_,rfl⟩ := Option.map_eq_some_iff.mp hstep
      exact h.set h.sound h.notCyclic (Later.refl _)
        ⟨fun _ hv => hi.owned _ hv,fun _ => hi.more (Or.inr ⟨t,rfl⟩),by simp⟩
    · cases hstep
  | service i o =>
    simp only [stepOf, dataNext] at hstep
    split at hstep
    · rename_i t descWb data hpc
      have hi := h.callers i
      have hown := hok t descWb (by rw [hpc])
      rw [hpc] at hi
      split at hstep
      · split at hstep
        · rename_i d rc hcall
          cases hstep
          obtain ⟨hservice,hd,hrx,hl⟩ := h.service hcall
          have ht := hi.owned t rfl
          refine h.set hd hrx hl ⟨?_,fun _ => hi.more (Or.inr ⟨t,rfl⟩),?_⟩
          · rintro _ ⟨⟩
            exact (hl t ht).1
          · rintro _ ⟨⟩
            exact (engineService_own h.sound ht hservice).mpr hown rfl
        · cases hstep
      · cases hstep
    · cases hstep
  | wait i signal =>
    simp only [stepOf, dataNext] at hstep
    split at hstep
    · rename_i t data hpc
      have hi := h.callers i
      rw [hpc] at hi
      split at hstep
      · rename_i hw
        cases hstep
        refine h.set h.sound h.notCyclic (Later.refl _)
          ⟨fun _ hv => hi.owned _ hv,fun _ => hi.more (Or.inr ⟨t,rfl⟩),?_⟩
        cases signal with
        | true => simp [eRestartSys]
        | false =>
          rintro _ ⟨⟩ hs
          exact Bool.false_ne_true (hw.2.mpr hs)
      · cases hstep
    · cases hstep
  | account i status =>
    simp only [stepOf, dataNext] at hstep
    split at hstep
    · rename_i t rc data hpc
      cases hstep
      obtain ⟨hd,hl,hrx⟩ := leaveTransfer_sound h.sound t rc status
      exact h.set hd (hrx.trans h.notCyclic) hl
        ⟨by simp [CallerPc.own],by simp [CallerPc.own],by simp⟩
    · cases hstep
  | writeBack value =>
    cases hstep
    obtain ⟨hd,hc,hi⟩ := h
    exact ⟨⟨hd.order,hd.ids,hd.plain,hd.nonempty,hd.shutdown,hd.listed,hd.settled,hd.known,hd.behind,
      hd.idle,hd.progress,hd.notified⟩,hc,fun i => (hi i).later fun _ ht => ⟨ht,id⟩⟩
  | interrupt o =>
    simp only [stepOf, dataNext] at hstep
    split at hstep
    · split at hstep
      · rename_i d rc hcall
        cases hstep
        obtain ⟨_,hd,hrx,hl⟩ := h.service hcall
        exact ⟨hd,hrx,fun i => (h.callers i).later hl⟩
      · cases hstep
    · cases hstep

theorem setCaller_counts {s : DataSystem} {d : Driver} {i : Nat} {c : Caller}
    (hdone : c.data.done = (s.callers i).data.done) (hpos : c.data.pos = (s.callers i).data.pos) :
    CountsOnlyCompleted s (s.setCaller d i c) := by
  intro j hj
  by_cases hji : j = i
  · subst j
    simp [DataSystem.setCaller, hdone, hpos] at hj
  · simp [DataSystem.setCaller, hji] at hj

theorem createNext_counts {s s' : DataSystem} {i : Nat} {data : DataState} {kernel : Platform}
    (hpc : s.callers i = ⟨.loop,data⟩) (hn : createNext s i data kernel = some s') :
    CountsOnlyCompleted s s' := by
  unfold createNext at hn
  split at hn
  · split at hn
    · cases hn
    · cases hn
      exact setCaller_counts (by rw [hpc]) (by rw [hpc])
    · obtain ⟨x',_,rfl⟩ := Option.map_eq_some_iff.mp hn
      exact setCaller_counts (by rw [hpc]; rfl) (by rw [hpc]; rfl)
  · cases hn
    exact setCaller_counts (by rw [hpc]) (by rw [hpc])

theorem account_failed (data : DataState) {res : Int} (h : res ≠ 0) :
    (data.account res).done = data.done ∧ (data.account res).pos = data.pos := by
  simp [DataState.account, h]

theorem account_counts {data : DataState} (h : 0 < data.remaining) :
    data.done < (data.account 0).done := by
  have hlen := chunkLength_bounds h
  simp only [DataState.account, ne_eq, not_true_eq_false, if_false]
  omega

theorem chunkVerdict_zero {state : TransferState} {rc : Int} (h : chunkVerdict state rc = 0) :
    state = .completed ∨ (state = .submitted ∧ rc = 0) := by
  unfold chunkVerdict at h
  cases state <;> simp [eIo, eRestartSys] at h ⊢
  exact h

theorem DataSystem.Steady.counts {s : DataSystem} (h : s.Steady) (p : Params) : CountsSafely p s := by
  intro op s' hstep
  cases op with
  | account i status =>
    simp only [stepOf, dataNext] at hstep
    split at hstep
    · rename_i t rc data hpc
      cases hstep
      by_cases hv : chunkVerdict (s.driver.state t) rc = 0
      · rcases chunkVerdict_zero hv with hc | ⟨hsub,rfl⟩
        · intro j hj
          by_cases hji : j = i
          · subst j
            exact ⟨t,by rw [hpc]; rfl,hc⟩
          · simp [DataSystem.setCaller, hji] at hj
        · exact absurd hsub ((h.callers i).settled t (by rw [hpc]))
      · have hsame := account_failed data hv
        exact setCaller_counts (by rw [hpc]; exact hsame.1) (by rw [hpc]; exact hsame.2)
    · cases hstep
  | create i kernel =>
    simp only [stepOf, dataNext] at hstep
    split at hstep
    · rename_i data hpc
      exact createNext_counts hpc hstep
    · cases hstep
  | writeBack value =>
    cases hstep
    exact fun i hi => by simp at hi
  | interrupt o =>
    simp only [stepOf, dataNext] at hstep
    repeat' split at hstep
    all_goals cases hstep
    exact fun i hi => by simp at hi
  | poll i timeout =>
    simp only [stepOf, dataNext] at hstep
    split at hstep
    · rename_i t expected data hpc
      obtain ⟨descWb,_,rfl⟩ := Option.map_eq_some_iff.mp hstep
      exact setCaller_counts (by rw [hpc]) (by rw [hpc])
    · cases hstep
  | _ i =>
    simp only [stepOf, dataNext] at hstep
    split at hstep
    · rename_i hpc
      repeat' split at hstep
      all_goals cases hstep
      all_goals exact setCaller_counts (by rw [hpc]) (by rw [hpc])
    · cases hstep

/-- A call that returns success while its own transfer is still submitted counts it. -/
theorem CountsSafely.service {p : Params} {s s' : DataSystem} {i : Nat} {o : Observed}
    (h : s.Steady) (hstep : stepOf (dataNext p) s (.service i o) s') (hsafe : CountsSafely p s') :
    reachesOwn s (.service i o) := by
  intro t descWb hpc
  simp only [stepOf, dataNext] at hstep
  split at hstep
  · rename_i t' descWb' data hi
    rw [hi] at hpc
    cases hpc
    have hsteady := h.callers i
    rw [hi] at hsteady
    split at hstep
    · split at hstep
      · rename_i d rc hcall
        cases hstep
        obtain ⟨hservice,_⟩ := h.service hcall
        refine (engineService_own h.sound (hsteady.owned t rfl) hservice).mp ?_
        rintro rfl hsub
        have hpc' : (s.setCaller d i ⟨.monitored t 0,data⟩).callers i = ⟨.monitored t 0,data⟩ := by
          simp [DataSystem.setCaller]
        have hv : chunkVerdict (d.state t) 0 = 0 := by simp [chunkVerdict, hsub]
        obtain ⟨t',hown,hdone⟩ := hsafe (.account i 0) _ (by
          simp only [stepOf, dataNext, hpc']
          rfl) i (Or.inl (by
          have hd : (s.setCaller d i ⟨.monitored t 0,data⟩).driver = d := rfl
          have hlt : data.done < (data.account 0).done :=
            account_counts (hsteady.more (Or.inr ⟨t,rfl⟩))
          rw [hpc', hd, hv]
          simp only [DataSystem.setCaller, Function.update_self]
          omega))
        rw [hpc'] at hown
        cases hown
        exact absurd (hdone.symm.trans hsub) (by decide)
      · cases hstep
    · cases hstep
  · cases hstep

/-- While every poller reaches its own transfer only completed chunks are
counted, and the first that does not can be made to count another. -/
theorem run_reachesOwn {p : Params} {s₀ s : DataSystem} {ops : List DataOp} (h₀ : Starting s₀)
    (r : Run (stepOf (dataNext p)) reachesOwn s₀ ops s) : CountsSafely p s ∧
      ∀ op s', stepOf (dataNext p) s op s' → (CountsSafely p s' ↔ reachesOwn s op) := by
  have hkeep : ∀ s op t, DataSystem.Steady s → reachesOwn s op → stepOf (dataNext p) s op t →
      DataSystem.Steady t ∧ CountsSafely p t := fun s op t h hok hstep =>
    ⟨h.step hok hstep,(h.step hok hstep).counts p⟩
  have honly : ∀ s op t, DataSystem.Steady s → stepOf (dataNext p) s op t → CountsSafely p t →
      reachesOwn s op := by
    intro s op t h hstep hsafe
    cases op with
    | service i o => exact hsafe.service h hstep
    | _ => trivial
  obtain ⟨hsteady,hiff⟩ := Run.step_iff _ (fun _ t => CountsSafely p t) h₀.steady hkeep honly r
  exact ⟨hsteady.counts p,hiff⟩

def DataSystem.pages : DataSystem :=
  ⟨.created ⟨true,false⟩,fun i => ⟨.loop,⟨0,0,i*pageSize,pageSize,0,[]⟩⟩⟩

theorem starting_pages : Starting .pages := ⟨fresh_created _,rfl,fun _ => ⟨_,_,_,rfl⟩⟩

def startsPolling (i : Nat) : List DataOp :=
  [.create i (.ample fun page => BitVec.ofNat 64 (page*pageSize)),.queue i,.monitor i]

theorem run_reachesOwn_one : CountsSafely ⟨true,false⟩ (replay (dataNext ⟨true,false⟩)
    (replay (dataNext ⟨true,false⟩) .pages (startsPolling 0 ++ [.writeBack 1,.poll 0 false]))
    [.service 0 ⟨⟨0,0⟩,[]⟩]) := by
  have r : Run (stepOf (dataNext ⟨true,false⟩)) reachesOwn .pages
      (startsPolling 0 ++ [.writeBack 1,.poll 0 false]) _ :=
    (replay_run (by decide)).labels (by simp [startsPolling, reachesOwn])
  refine (run_reachesOwn starting_pages (r.snoc ?_ (replay_step (by decide)))).1
  intro t descWb hpc _ _
  have hown : some t = some 0 := (congrArg CallerPc.own hpc).symm.trans (by decide)
  cases hown
  exact ⟨[],[],by decide,Or.inl rfl⟩

/-- Two callers see the count of the first page, the second services the engine
for it, and takes its own page for transferred. -/
theorem otherPoller_counts : ¬ ∀ (p : Params) (s₀ s s' : DataSystem) (ops : List DataOp)
    (op : DataOp), Starting s₀ → Run (stepOf (dataNext p)) anyStep s₀ ops s →
      stepOf (dataNext p) s op s' → CountsOnlyCompleted s s' := by
  intro hall
  let ops : List DataOp := startsPolling 0 ++ startsPolling 1 ++
    [.writeBack 1,.poll 0 false,.poll 1 false,.service 1 ⟨⟨0,0⟩,[]⟩]
  let s := replay (dataNext ⟨true,false⟩) .pages ops
  have hrun : Run (stepOf (dataNext ⟨true,false⟩)) anyStep .pages ops s := replay_run (by decide)
  have hcounts := hall _ _ _ _ _ (.account 1 0) starting_pages hrun (replay_step (by decide))
  obtain ⟨t,hown,hdone⟩ := hcounts 1 (Or.inl (by decide))
  have ht : some t = some 1 := hown.symm.trans (by decide)
  cases ht
  exact absurd hdone (by decide)

end DmaCamera
