import DmaCamera.Stream
set_option autoImplicit false

namespace DmaCamera
open Runs

/-! The list of a streaming receive engine with other transfers on it: performance
tests, and chunks of asynchronous reads. -/

/-- While it is set, the cyclic transfer is the head of the list or no longer on it. -/
def HeadOrGone (e : Engine) : Prop :=
  ∀ c, e.rxTransferCyclic = some c → e.transferList.head? = some c ∨ c ∉ e.transferList

def dequeueBug {α : Type} : Except Fault α → Bool
  | .error (.bug .engineTransferDequeue) => true
  | _ => false

theorem dequeueBug_iff {α : Type} {x : Except Fault α} :
    dequeueBug x = true ↔ x = .error (.bug .engineTransferDequeue) := by
  refine ⟨fun h => ?_,fun h => by rw [h]; rfl⟩
  unfold dequeueBug at h
  split at h
  · rfl
  · cases h

/-- No service handler run, and no close that polls, takes a transfer of somebody
else off the list. -/
structure DequeuesOwn (p : Params) (s : StreamSystem) : Prop where
  head : HeadOrGone s.engine
  service : ∀ wb o, dequeueBug (engineServiceLocked p s.device.driver wb o) = false
  poll : ∀ status, dequeueBug
    (cyclicShutdown p { s.device.driver with engine := s.engine.statusRead status }) = false

/-- An open finds nothing on the list, what is submitted finds the engine running,
and a free finds it stopped. -/
def queuesInTurn (s : StreamSystem) : StreamOp → Prop
  | .start => s.engine.transferList = []
  | .perfStart request env => perfSubmits s.device request env = true → s.engine.running = true
  | .asyncRead _ _ _ => s.engine.running = true
  | .free => s.engine.running = false
  | _ => True

def Leads (e : Engine) (c : TransferId) : Prop :=
  (e.running = true ∧ ∃ rest, e.transferList = c :: rest ∧ c ∉ rest) ∨
    (e.running = false ∧ c ∉ e.transferList)

structure InTurn (s : StreamSystem) : Prop where
  shutdown : s.engine.shutdown.has engineShutdownRequest = false
  fresh : ∀ t ∈ s.engine.transferList, t < s.device.created
  closed : s.stage = .closed → s.engine.rxTransferCyclic = none ∧ s.engine.running = false
  held : s.stage ≠ .closed → s.device.rxBuffer.isSome = true ∧
    ∃ c, s.engine.rxTransferCyclic = some c ∧ c < s.device.created ∧ Leads s.engine c
  created : s.stage = .created → s.engine.running = false

theorem Unopened.inTurn {s : StreamSystem} (h : Unopened s) : InTurn s := by
  refine ⟨h.shutdown,fun t ht => ?_,fun _ => ⟨h.rxTransferCyclic,h.running⟩,
    fun hn => absurd h.stage hn,fun _ => h.running⟩
  rw [h.transferList] at ht
  cases ht

theorem Leads.headOrGone {e : Engine} {c : TransferId} (h : Leads e c)
    (hrx : e.rxTransferCyclic = some c) : HeadOrGone e := by
  intro v hv
  cases hrx.symm.trans hv
  rcases h with ⟨_,rest,hlist,_⟩ | ⟨_,hnot⟩
  · rw [hlist]
    exact Or.inl rfl
  · exact Or.inr hnot

theorem Leads.same {e e' : Engine} {c : TransferId} (h : Leads e c) (hs : SameLine e e') :
    Leads e' c := by
  unfold Leads
  rw [hs.transferList, hs.running]
  exact h

theorem Leads.serviced {d d' : Driver} {c : TransferId} (h : Leads d.engine c)
    (hs : CyclicService d d') : Leads d'.engine c := by
  cases hs with
  | same hline => exact h.same hline
  | stopped hrun hidle _ hlist _ =>
    rcases h with ⟨_,rest,hc,hnot⟩ | ⟨hr,_⟩
    · refine Or.inr ⟨hidle,?_⟩
      rw [hlist, hc]
      exact hnot
    · cases hrun.symm.trans hr

theorem CyclicService.list_subset {d d' : Driver} (h : CyclicService d d') :
    ∀ t ∈ d'.engine.transferList, t ∈ d.engine.transferList := by
  cases h with
  | same hline =>
    rw [hline.transferList]
    exact fun _ ht => ht
  | stopped _ _ _ hlist =>
    rw [hlist]
    exact fun _ ht => List.mem_of_mem_tail ht

theorem Leads.submitted {s s' : StreamEngine} {c : TransferId} (h : Leads s.engine c)
    (hrun : s.engine.running = true) (hc : c < s.created) (hs : Submitted s s') :
    Leads s'.engine c := by
  rcases h with ⟨_,rest,hlist,hnot⟩ | ⟨hidle,_⟩
  · refine Or.inl ⟨hs.running,rest ++ [s.created],?_,?_⟩
    · rw [hs.transferList, hlist]
      rfl
    · simp only [List.mem_append, List.mem_singleton, not_or]
      exact ⟨hnot,Nat.ne_of_lt hc⟩
  · cases hrun.symm.trans hidle

theorem cyclicShutdown_own {p : Params} {d : Driver} {c : TransferId} (h : Leads d.engine c)
    (hrx : d.engine.rxTransferCyclic = some c) : dequeueBug (cyclicShutdown p d) = false := by
  unfold cyclicShutdown
  split
  · rename_i hstop
    simp only [Bool.and_eq_true] at hstop
    rcases h with ⟨_,rest,hlist,_⟩ | ⟨hidle,_⟩
    · simp [hlist, engineTransferDequeue, hrx, dequeueBug]
    · cases hstop.1.symm.trans hidle
  · rfl

theorem dequeueBug_map {α β : Type} (f : α → β) (x : Except Fault α) :
    dequeueBug (x.map f) = dequeueBug x := by
  cases x with
  | ok a => rfl
  | error e => cases e with
    | bug site => cases site <;> rfl
    | _ => rfl

theorem engineRingProcess_own (e : Engine) : dequeueBug (engineRingProcess e) = false := by
  unfold engineRingProcess
  split
  · rfl
  · split <;> rfl

theorem dequeueBug_error {α β : Type} {x : Except Fault α} {f : Fault} (h : x = .error f)
    (hx : dequeueBug x = false) : dequeueBug (.error f : Except Fault β) = false := by
  rw [h] at hx
  cases f with
  | bug site => cases site <;> first | rfl | exact hx
  | _ => rfl

theorem engineServiceCyclicInterrupt_own {p : Params} {d : Driver} {status : U32} {c : TransferId}
    (h : Leads d.engine c) (hrx : d.engine.rxTransferCyclic = some c) :
    dequeueBug (engineServiceCyclicInterrupt p d status) = false := by
  unfold engineServiceCyclicInterrupt
  split
  · rename_i f hf
    exact dequeueBug_error hf (engineRingProcess_own _)
  · rename_i e eopCount hring
    have hr := engineRingProcess_same hring
    have hline : SameLine d.engine e := ⟨hr.line.1,hr.line.2,hr.line.3⟩
    have hcyclic : e.rxTransferCyclic = some c := hr.cyclic.trans hrx
    split
    · rename_i hnone
      cases hcyclic.symm.trans hnone
    · rw [dequeueBug_map]
      have hwritten : ∀ b : Bool,
          SameCyclic e (if b then { e with eopFound := true } else e) := by
        intro b
        cases b <;> exact ⟨⟨rfl,rfl,rfl⟩,rfl⟩
      exact cyclicShutdown_own ((h.same hline).same (hwritten _).line)
        ((hwritten _).cyclic.trans hcyclic)

theorem cyclicPolledLoop_own (rounds : List PollRound) (e : Engine) :
    dequeueBug (cyclicPolledLoop rounds e) = false := by
  induction rounds generalizing e with
  | nil => rfl
  | cons round rounds ih =>
    unfold cyclicPolledLoop
    simp only
    split
    · rfl
    · split
      · rename_i f hf
        exact dequeueBug_error hf (engineRingProcess_own _)
      · split
        · exact ih _
        · rfl

theorem engineServiceCyclicPolled_own {p : Params} {d : Driver} {rounds : List PollRound}
    {status : U32} {c : TransferId} (h : Leads d.engine c)
    (hrx : d.engine.rxTransferCyclic = some c) :
    dequeueBug (engineServiceCyclicPolled p d rounds status) = false := by
  unfold engineServiceCyclicPolled
  split
  · rename_i f hf
    exact dequeueBug_error hf (cyclicPolledLoop_own _ _)
  · rfl
  · rename_i e eopCount rc hloop
    have hr := cyclicPolledLoop_same hloop
    split
    · rw [dequeueBug_map]
      exact cyclicShutdown_own (h.same ⟨hr.line.1,hr.line.2,hr.line.3⟩) (hr.cyclic.trans hrx)
    · rfl

/-- In turn, every dequeue finds the cyclic transfer. -/
theorem InTurn.dequeuesOwn {p : Params} {s : StreamSystem} (h : InTurn s) : DequeuesOwn p s := by
  by_cases hc : s.stage = .closed
  · obtain ⟨hrx,hrun⟩ := h.closed hc
    refine ⟨fun c hn => ?_,fun wb o => ?_,fun status => ?_⟩
    · cases hrx.symm.trans hn
    · rw [engineServiceLocked_plain hrx, engineService_idle hrun]
      rfl
    · have hrun' : (s.engine.statusRead status).running = false := hrun
      simp [cyclicShutdown, hrun', dequeueBug]
  · obtain ⟨_,c,hrx,_,hl⟩ := h.held hc
    refine ⟨hl.headOrGone hrx,fun wb o => ?_,fun status => ?_⟩
    · have hsome : s.device.driver.engine.rxTransferCyclic.isSome = true := by
        rw [show s.device.driver.engine.rxTransferCyclic = some c from hrx]
        rfl
      rw [engineServiceLocked, if_pos hsome, engineServiceCyclic]
      split
      · exact engineServiceCyclicPolled_own hl hrx
      · rw [dequeueBug_map]
        exact engineServiceCyclicInterrupt_own hl hrx
    · exact cyclicShutdown_own (hl.same ⟨rfl,rfl,rfl⟩) hrx

theorem InTurn.same {s s' : StreamSystem} (h : InTurn s) (hs : SameDevice s s') : InTurn s' := by
  obtain ⟨hstage,⟨hline,hcyclic⟩,hbuf,hcreated,_,_⟩ := hs
  refine ⟨hline.noRequest h.shutdown,?_,fun hc => ?_,fun hc => ?_,fun hc => ?_⟩
  · rw [hline.transferList, hcreated]
    exact h.fresh
  · rw [hcyclic, hline.running]
    exact h.closed (hstage.symm.trans hc)
  · obtain ⟨hsome,c,hrx,hlt,hl⟩ := h.held (hstage ▸ hc)
    rw [hbuf, hcyclic, hcreated]
    exact ⟨hsome,c,hrx,hlt,hl.same hline⟩
  · rw [hline.running]
    exact h.created (hstage.symm.trans hc)

theorem InTurn.setup {p : Params} {s s' : StreamSystem} {env : SetupEnv} (h : InTurn s)
    (hs : streamNext p s (.setup env) = some s') : InTurn s' := by
  rcases streamNext_setup hs with ⟨hd,hstage,_⟩ | ⟨hf,hstage,_,hbusy⟩
  · have hclosed : s.stage = .closed := by
      by_contra hn
      obtain ⟨hsome,_⟩ := h.held hn
      simp [hd.notOpen] at hsome
    have hrun' := hd.line.running.trans (h.closed hclosed).2
    have hlist : s'.engine.transferList = s.engine.transferList := hd.line.transferList
    have hnew : s'.device.created = s.device.created+1 := hd.created
    refine ⟨hd.line.noRequest h.shutdown,fun t ht => ?_,fun hn => ?_,fun _ => ?_,fun _ => hrun'⟩
    · rw [hlist] at ht
      rw [hnew]
      exact Nat.lt_succ_of_lt (h.fresh t ht)
    · cases hstage.symm.trans hn
    · refine ⟨hd.rxBuffer,_,hd.cyclic,hnew ▸ Nat.lt_succ_self _,Or.inr ⟨hrun',fun hm => ?_⟩⟩
      -- the transfer is new
      rw [hlist] at hm
      exact Nat.lt_irrefl _ (h.fresh _ hm)
  · by_cases hc : s.stage = .closed
    · obtain ⟨hrx,hrun⟩ := h.closed hc
      have hrx' : s'.engine.rxTransferCyclic = none := by
        rcases hf.cyclic with he | ⟨_,he⟩
        · exact he.trans hrx
        · exact he
      have hrun' := hf.line.running.trans hrun
      have hlist : s'.engine.transferList = s.engine.transferList := hf.line.transferList
      refine ⟨hf.line.noRequest h.shutdown,fun t ht => ?_,fun _ => ⟨hrx',hrun'⟩,
        fun hn => absurd (hstage.trans hc) hn,fun _ => hrun'⟩
      rw [hlist] at ht
      exact Nat.lt_of_lt_of_le (h.fresh t ht) hf.created
    · exact h.same (hbusy (h.held hc).1)

theorem InTurn.start {p : Params} {s s' : StreamSystem} (h : InTurn s)
    (hnil : s.engine.transferList = []) (hs : streamNext p s .start = some s') : InTurn s' := by
  have hopen : s.stage ≠ .closed := by
    intro hc
    simp [streamNext, hc] at hs
  obtain ⟨hbuf,c,hrx,hlt,_⟩ := h.held hopen
  have hd := streamNext_start hrx h.shutdown hs
  have hlist : s'.engine.transferList = [c] := by
    have hq : s'.engine.transferList = s.engine.transferList ++ [c] := hd.queued.same.transferList
    rw [hq, hnil]
    rfl
  have hstage := hd.stage
  have hnew := hd.created
  refine ⟨hd.queued.same.shutdown h.shutdown,fun t ht => ?_,fun hn => ?_,fun _ => ?_,fun hn => ?_⟩
  · rw [hlist, List.mem_singleton] at ht
    rw [ht, hnew]
    exact hlt
  · cases hstage.symm.trans hn
  · refine ⟨by rw [hd.rxBuffer]; exact hbuf,c,hd.queued.same.rxTransferCyclic.trans hrx,hnew ▸ hlt,?_⟩
    exact Or.inl ⟨hd.queued.running,[],hlist,List.not_mem_nil⟩
  · cases hstage.symm.trans hn

theorem InTurn.service {p : Params} {s s' : StreamSystem} {wb : U32} {o : Observed} (h : InTurn s)
    (hs : streamNext p s (.service wb o) = some s') : InTurn s' := by
  obtain ⟨d,rc,hservice,rfl⟩ := streamNext_service hs
  by_cases hc : s.stage = .closed
  · obtain ⟨hrx,hrun⟩ := h.closed hc
    obtain ⟨hsame,hf⟩ := engineServiceLocked_idle hrx hrun hservice
    exact h.same ⟨rfl,hsame,rfl,rfl,hf.need,rfl⟩
  · obtain ⟨hbuf,c,hrx,hlt,hl⟩ := h.held hc
    obtain ⟨hservice',hf⟩ := engineServiceLocked_cyclic hrx hservice
    exact ⟨hservice'.noRequest h.shutdown,fun t ht => h.fresh t (hservice'.list_subset t ht),
      fun hn => absurd hn hc,fun _ => ⟨hbuf,c,hf.cyclic.trans hrx,hlt,hl.serviced hservice'⟩,
      fun hn => hservice'.idle (h.created hn)⟩

theorem InTurn.closing {s s' : StreamSystem} (h : InTurn s) (hopen : s.stage ≠ .closed)
    (hclosed : s'.stage ≠ .closed) (hcreated : s'.stage ≠ .created)
    (hs : CyclicService s.device.driver s'.device.driver)
    (hf : s'.engine.rxTransferCyclic = s.engine.rxTransferCyclic)
    (hbuf : s'.device.rxBuffer = s.device.rxBuffer) (hnew : s'.device.created = s.device.created) :
    InTurn s' := by
  obtain ⟨hsome,c,hrx,hlt,hl⟩ := h.held hopen
  refine ⟨hs.noRequest h.shutdown,fun t ht => ?_,fun hn => absurd hn hclosed,
    fun _ => ⟨hbuf ▸ hsome,c,hf.trans hrx,hnew ▸ hlt,hl.serviced hs⟩,fun hn => absurd hn hcreated⟩
  rw [hnew]
  exact h.fresh t (hs.list_subset t ht)

theorem InTurn.submitted {s : StreamSystem} {device : StreamEngine} (h : InTurn s)
    (hstage : s.stage = .opened) (hrun : s.engine.running = true) (hs : Submitted s.device device) :
    InTurn { s with device := device } := by
  obtain ⟨hbuf,c,hrx,hlt,hl⟩ := h.held (by rw [hstage]; decide)
  have hnew := hs.created
  refine ⟨hs.shutdown,fun t ht => ?_,fun hn => ?_,fun _ => ?_,fun hn => ?_⟩
  · have hq : device.engine.transferList = s.engine.transferList ++ [s.device.created] :=
      hs.transferList
    rw [StreamSystem.engine] at ht
    rw [show device.driver.engine.transferList = _ from hq] at ht
    simp only [hnew]
    rcases List.mem_append.mp ht with ht | ht
    · exact Nat.lt_succ_of_lt (h.fresh t ht)
    · rw [List.mem_singleton.mp ht]
      exact Nat.lt_succ_self _
  · cases hstage.symm.trans hn
  · exact ⟨by rw [hs.rxBuffer]; exact hbuf,c,hs.cyclic.trans hrx,by simp only [hnew]; exact Nat.lt_succ_of_lt hlt,
      Leads.submitted hl hrun hlt hs⟩
  · cases hstage.symm.trans hn

theorem InTurn.next {p : Params} {s s' : StreamSystem} {op : StreamOp} (h : InTurn s)
    (hok : queuesInTurn s op) (hs : streamNext p s op = some s') : InTurn s' := by
  cases op with
  | setup env => exact h.setup hs
  | start => exact h.start hok hs
  | read w => exact h.same (streamNext_read hs)
  | stop =>
    obtain ⟨hstage,rfl⟩ := streamNext_stop hs
    obtain ⟨⟨hline,hcyclic⟩,_,_⟩ := engineCyclicStop_spec p s.device.driver
    exact h.closing (by rw [hstage]; decide) (by simp) (by simp) (.same hline) hcyclic rfl rfl
  | wait signal =>
    obtain ⟨hstage,_,rfl⟩ := streamNext_wait hs
    exact h.closing (by rw [hstage]; decide) (by simp) (by simp) (.same (.refl _)) rfl rfl rfl
  | poll status =>
    obtain ⟨hstage,d,rfl,hd⟩ := streamNext_poll hs
    obtain ⟨hservice,hf⟩ := cyclicShutdown_spec hd
    exact h.closing (by rw [hstage]; decide) (by simp) (by simp)
      (hservice.from ⟨⟨rfl,rfl,rfl⟩,rfl⟩) hf.cyclic rfl rfl
  | free =>
    obtain ⟨_,rfl⟩ := streamNext_free hs
    exact ⟨h.shutdown,h.fresh,fun _ => ⟨rfl,hok⟩,fun hn => absurd rfl hn,fun _ => hok⟩
  | service wb o => exact h.service hs
  | perfStart request env =>
    obtain ⟨hstage,device,rc,hd,rfl⟩ := streamNext_perfStart hs
    rcases ioctlDoPerfStart_cases h.shutdown hd with ⟨hsame,hbuf,hnew⟩ | ⟨hsub,hd'⟩
    · by_cases hn : s.stage = .closed
      · cases hstage.symm.trans hn
      · exact h.closing hn (by simpa using hn) (by simp [hstage]) (.same hsame.line) hsame.cyclic
          hbuf hnew
    · exact h.submitted hstage (hok hsub) hd'
  | perfStop regs copied => exact h.same (streamNext_perfStop hs)
  | asyncRead kernel r seg =>
    obtain ⟨hstage,device,hd,rfl⟩ := streamNext_asyncRead hs
    exact h.submitted hstage hok (asyncChunk_submitted h.shutdown hd)

/-- If the list is empty at every open's queueing, the engine runs at every submit
and has stopped at every free, the service handler only ever takes the cyclic
transfer off the list. -/
theorem engineTransferDequeue_own {p : Params} {s₀ s : StreamSystem} {ops : List StreamOp}
    (h₀ : Unopened s₀) (r : Run (stepOf (streamNext p)) queuesInTurn s₀ ops s) :
    DequeuesOwn p s := by
  have hI : InTurn s := r.invariant InTurn h₀.inTurn fun _ _ _ hs hok ht => hs.next hok ht
  exact hI.dequeuesOwn

instance (s : StreamSystem) (op : StreamOp) : Decidable (queuesInTurn s op) :=
  match op with
  | .start => inferInstanceAs (Decidable (s.engine.transferList = []))
  | .perfStart request env => inferInstanceAs
      (Decidable (perfSubmits s.device request env = true → s.engine.running = true))
  | .asyncRead _ _ _ => inferInstanceAs (Decidable (s.engine.running = true))
  | .free => inferInstanceAs (Decidable (s.engine.running = false))
  | .setup _ | .read _ | .stop | .wait _ | .poll _ | .service _ _ | .perfStop _ _ =>
    inferInstanceAs (Decidable True)

def testLeft : List StreamOp :=
  [.setup .ample,.start,.perfStart ⟨perfVersion,4096,0,0,0,0,0⟩ .ample,.service 0 ⟨⟨0,0⟩,[]⟩,
    .stop,.wait false,.free]

theorem engineTransferDequeue_own_test : ∃ s,
    Run (stepOf (streamNext ⟨false,false⟩)) queuesInTurn (.unopened ⟨false,false⟩) testLeft s ∧
      DequeuesOwn ⟨false,false⟩ s := by
  have r : Run (stepOf (streamNext ⟨false,false⟩)) queuesInTurn (.unopened ⟨false,false⟩) testLeft
      (replay (streamNext ⟨false,false⟩) (.unopened ⟨false,false⟩) testLeft) :=
    replay_ok (by decide +kernel)
  exact ⟨_,r,engineTransferDequeue_own (unopened_unopened _) r⟩

/-- The device is opened again: the new cyclic transfer is second on the list, and
the first run of the handler that finds the engine stopped trips over the test's. -/
theorem engineTransferDequeue_trips : Unopened (.unopened ⟨false,false⟩) ∧ ∃ s,
    Run (stepOf (streamNext ⟨false,false⟩)) anyStep (.unopened ⟨false,false⟩)
      (testLeft ++ [.setup .ample,.start]) s ∧
      ¬HeadOrGone s.engine ∧
      engineServiceLocked ⟨false,false⟩ s.device.driver 0 ⟨⟨0,0⟩,[]⟩ =
        .error (.bug .engineTransferDequeue) := by
  obtain ⟨s,hs⟩ : ∃ s, s = replay (streamNext ⟨false,false⟩) (.unopened ⟨false,false⟩)
    (testLeft ++ [.setup .ample,.start]) := ⟨_,rfl⟩
  have hrx : s.engine.rxTransferCyclic = some 2 := by rw [hs]; decide +kernel
  have hlist : s.engine.transferList = [1,2] := by rw [hs]; decide +kernel
  refine ⟨unopened_unopened _,s,by rw [hs]; exact replay_run (by decide +kernel),fun h => ?_,?_⟩
  · have h2 := h 2 hrx
    rw [hlist] at h2
    simp at h2
  · have hbug : dequeueBug (engineServiceLocked ⟨false,false⟩ s.device.driver 0 ⟨⟨0,0⟩,[]⟩) =
        true := by rw [hs]; decide +kernel
    exact dequeueBug_iff.mp hbug

end DmaCamera
