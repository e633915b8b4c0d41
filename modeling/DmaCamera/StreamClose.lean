import DmaCamera.Stream
set_option autoImplicit false

namespace DmaCamera
open Runs

/-! Opens, reads and closes in interrupt mode. -/

def StreamOp.isCall : StreamOp → Bool
  | .perfStart _ _ => false
  | .perfStop _ _ => false
  | .asyncRead _ _ _ => false
  | _ => true

def StreamOp.isFree : StreamOp → Bool
  | .free => true
  | _ => false

def callNext (p : Params) (s : StreamSystem) (op : StreamOp) : Option StreamSystem :=
  if op.isCall then streamNext p s op else none

def FreedSafely (s : StreamSystem) : Prop := ∀ f ∈ s.frees, f = ⟨false,false⟩

/-- A close whose wait was ended by a signal finds the engine stopped meanwhile. -/
def stopsBeforeFree (s : StreamSystem) (op : StreamOp) : Prop :=
  op.isFree = true → s.stage = .waited true → s.engine.running = false

/-- The cyclic transfer is all there is: a running engine has it on the list, an
idle one has nothing. -/
def Alone (e : Engine) (c : TransferId) : Prop :=
  (e.transferList = [c] ∧ e.running = true) ∨ (e.transferList = [] ∧ e.running = false)

structure Calm (s : StreamSystem) : Prop where
  shutdown : s.engine.shutdown.has engineShutdownRequest = false
  closed : s.stage = .closed → s.engine.rxTransferCyclic = none ∧
    s.engine.transferList = [] ∧ s.engine.running = false
  held : s.stage ≠ .closed → s.device.rxBuffer.isSome = true ∧
    ∃ c, s.engine.rxTransferCyclic = some c ∧ 1 ≤ s.device.driver.need c ∧ Alone s.engine c
  created : s.stage = .created → s.engine.running = false
  waited : s.stage = .waited false → s.engine.running = false

theorem Alone.same {e e' : Engine} {c : TransferId} (h : Alone e c) (hs : SameLine e e') :
    Alone e' c := by
  unfold Alone
  rw [hs.transferList, hs.running]
  exact h

theorem Alone.serviced {d d' : Driver} {c : TransferId} (h : Alone d.engine c)
    (hs : CyclicService d d') : Alone d'.engine c := by
  cases hs with
  | same hline => exact h.same hline
  | stopped hrun hidle _ hlist _ =>
    refine Or.inr ⟨?_,hidle⟩
    rcases h with ⟨hc,_⟩ | ⟨hnil,_⟩
    · rw [hlist, hc]
      rfl
    · rw [hlist, hnil]
      rfl

theorem Calm.same {s s' : StreamSystem} (h : Calm s) (hs : SameDevice s s') : Calm s' := by
  obtain ⟨hstage,⟨hline,hcyclic⟩,hbuf,_,hneed,_⟩ := hs
  refine ⟨hline.noRequest h.shutdown,fun hc => ?_,fun hc => ?_,fun hc => ?_,fun hc => ?_⟩
  · rw [hcyclic, hline.transferList, hline.running]
    exact h.closed (hstage.symm.trans hc)
  · obtain ⟨hsome,c,hrx,hn,ha⟩ := h.held (hstage ▸ hc)
    rw [hbuf, hcyclic, hneed]
    exact ⟨hsome,c,hrx,hn,ha.same hline⟩
  · rw [hline.running]
    exact h.created (hstage.symm.trans hc)
  · rw [hline.running]
    exact h.waited (hstage.symm.trans hc)

theorem Calm.setup {p : Params} {s s' : StreamSystem} {env : SetupEnv} (h : Calm s)
    (hs : streamNext p s (.setup env) = some s') : Calm s' ∧ s'.frees = s.frees := by
  rcases streamNext_setup hs with ⟨hd,hstage,hfrees⟩ | ⟨hf,hstage,hfrees,hbusy⟩
  · refine ⟨?_,hfrees⟩
    have hclosed : s.stage = .closed := by
      by_contra hn
      obtain ⟨hsome,_⟩ := h.held hn
      simp [hd.notOpen] at hsome
    obtain ⟨_,hlist,hrun⟩ := h.closed hclosed
    have hrun' := hd.line.running.trans hrun
    refine ⟨hd.line.noRequest h.shutdown,fun hn => ?_,fun _ => ?_,fun _ => hrun',fun _ => hrun'⟩
    · cases hstage.symm.trans hn
    · exact ⟨hd.rxBuffer,_,hd.cyclic,hd.need,Or.inr ⟨hd.line.transferList.trans hlist,hrun'⟩⟩
  · refine ⟨?_,hfrees⟩
    by_cases hc : s.stage = .closed
    · obtain ⟨hrx,hlist,hrun⟩ := h.closed hc
      have hrx' : s'.engine.rxTransferCyclic = none := by
        rcases hf.cyclic with he | ⟨_,he⟩
        · exact he.trans hrx
        · exact he
      have hrun' := hf.line.running.trans hrun
      refine ⟨hf.line.noRequest h.shutdown,
        fun _ => ⟨hrx',hf.line.transferList.trans hlist,hrun'⟩,fun hn => ?_,fun _ => hrun',
        fun _ => hrun'⟩
      exact absurd (hstage.trans hc) hn
    · -- a second open of a device that is open
      exact h.same (hbusy (h.held hc).1)

theorem Calm.start {p : Params} {s s' : StreamSystem} (h : Calm s)
    (hs : streamNext p s .start = some s') : Calm s' ∧ s'.frees = s.frees := by
  have hopen : s.stage ≠ .closed := by
    intro hc
    simp [streamNext, hc] at hs
  obtain ⟨hbuf,c,hrx,hneed,ha⟩ := h.held hopen
  have hd := streamNext_start hrx h.shutdown hs
  have hrun := h.created hd.before
  have hlist : s.device.driver.engine.transferList = [] := by
    rcases ha with ⟨_,hr⟩ | ⟨hnil,_⟩
    · cases hr.symm.trans hrun
    · exact hnil
  have hlist' : s'.engine.transferList = [c] := by
    rw [StreamSystem.engine, hd.queued.same.transferList, hlist]
    rfl
  have hstage := hd.stage
  refine ⟨⟨hd.queued.same.shutdown h.shutdown,fun hn => ?_,fun _ => ⟨?_,c,?_,?_,?_⟩,
    fun hn => ?_,fun hn => ?_⟩,hd.frees⟩
  · cases hstage.symm.trans hn
  · rw [hd.rxBuffer]
    exact hbuf
  · exact hd.queued.same.rxTransferCyclic.trans hrx
  · simpa [Driver.need, hd.queued.transfers] using hneed
  · exact Or.inl ⟨hlist',hd.queued.running⟩
  · cases hstage.symm.trans hn
  · cases hstage.symm.trans hn

theorem Calm.service {p : Params} {s s' : StreamSystem} {wb : U32} {o : Observed} (h : Calm s)
    (hs : streamNext p s (.service wb o) = some s') : Calm s' ∧ s'.frees = s.frees := by
  obtain ⟨d,rc,hservice,rfl⟩ := streamNext_service hs
  refine ⟨?_,rfl⟩
  by_cases hc : s.stage = .closed
  · obtain ⟨hrx,hlist,hrun⟩ := h.closed hc
    obtain ⟨hsame,hf⟩ := engineServiceLocked_idle hrx hrun hservice
    exact h.same ⟨rfl,hsame,rfl,rfl,hf.need,rfl⟩
  · obtain ⟨hbuf,c,hrx,hneed,ha⟩ := h.held hc
    obtain ⟨hservice',hf⟩ := engineServiceLocked_cyclic hrx hservice
    refine ⟨hservice'.noRequest h.shutdown,fun hn => absurd hn hc,
      fun _ => ⟨hbuf,c,hf.cyclic.trans hrx,?_,ha.serviced hservice'⟩,
      fun hn => hservice'.idle (h.created hn),fun hn => hservice'.idle (h.waited hn)⟩
    rw [StreamSystem.setDriver, hf.need]
    exact hneed

theorem Calm.stop {p : Params} {s s' : StreamSystem} (h : Calm s)
    (hs : streamNext p s .stop = some s') : Calm s' ∧ s'.frees = s.frees := by
  obtain ⟨hstage,rfl⟩ := streamNext_stop hs
  obtain ⟨⟨hline,hcyclic⟩,_,hneed⟩ := engineCyclicStop_spec p s.device.driver
  obtain ⟨hbuf,c,hrx,hn,ha⟩ := h.held (by rw [hstage]; decide)
  refine ⟨⟨hline.noRequest h.shutdown,fun hn => (by cases hn),
    fun _ => ⟨hbuf,c,hcyclic.trans hrx,?_,ha.same hline⟩,fun hn => (by cases hn),
    fun hn => (by cases hn)⟩,rfl⟩
  exact (congrFun hneed c).symm ▸ hn

theorem Calm.wait {p : Params} {s s' : StreamSystem} {signal : Bool} (h : Calm s)
    (hs : streamNext p s (.wait signal) = some s') : Calm s' ∧ s'.frees = s.frees := by
  obtain ⟨hstage,hsignal,rfl⟩ := streamNext_wait hs
  refine ⟨⟨h.shutdown,fun hn => (by cases hn),fun _ => h.held (by rw [hstage]; decide),
    fun hn => (by cases hn),fun hn => ?_⟩,rfl⟩
  cases hn
  exact hsignal.symm

theorem Calm.read {p : Params} {s s' : StreamSystem} {w : ReadWrites} (h : Calm s)
    (hs : streamNext p s (.read w) = some s') : Calm s' ∧ s'.frees = s.frees :=
  ⟨h.same (streamNext_read hs),(streamNext_read hs).frees⟩

theorem Calm.free {p : Params} {s s' : StreamSystem} (h : Calm s)
    (hs : streamNext p s .free = some s') :
    (s.engine.running = false → Calm s') ∧
      s'.frees = s.frees ++ [⟨s.engine.running,s.engine.running⟩] := by
  obtain ⟨⟨signal,hstage⟩,rfl⟩ := streamNext_free hs
  obtain ⟨hbuf,c,hrx,hneed,ha⟩ := h.held (by rw [hstage]; simp)
  refine ⟨fun hrun => ?_,?_⟩
  · have hlist : s.engine.transferList = [] := by
      rcases ha with ⟨_,hr⟩ | ⟨hnil,_⟩
      · cases hr.symm.trans hrun
      · exact hnil
    exact ⟨h.shutdown,fun _ => ⟨rfl,hlist,hrun⟩,fun hn => absurd rfl hn,fun hn => (by cases hn),
      fun hn => (by cases hn)⟩
  · have hfreed : s.freed = [⟨s.engine.running,s.engine.running⟩] := by
      have hholds : s.device.holds = true := by simp [StreamEngine.holds, hbuf]
      rw [StreamSystem.freed, if_pos hholds, hrx]
      rcases ha with ⟨hc,hrun⟩ | ⟨hnil,hrun⟩
      · simp [hc, hrun]
      · simp [hnil, hrun]
    rw [hfreed]

theorem Unopened.calm {s : StreamSystem} (h : Unopened s) : Calm s :=
  ⟨h.shutdown,fun _ => ⟨h.rxTransferCyclic,h.transferList,h.running⟩,fun hn => absurd h.stage hn,
    fun _ => h.running,fun _ => h.running⟩

theorem freedSafely_append {s s' : StreamSystem} {running : Bool}
    (h : s'.frees = s.frees ++ [⟨running,running⟩]) :
    FreedSafely s' ↔ FreedSafely s ∧ running = false := by
  simp only [FreedSafely, h, List.mem_append, List.mem_singleton]
  refine ⟨fun hs => ⟨fun f hf => hs f (Or.inl hf),?_⟩,fun hs f hf => ?_⟩
  · have he := hs _ (Or.inr rfl)
    cases running with
    | false => rfl
    | true => simp at he
  · rcases hf with hf | rfl
    · exact hs.1 f hf
    · rw [hs.2]

/-- A call keeps a calm device calm, unless it frees under a running engine. -/
theorem Calm.call {p : Params} (hp : p.pollMode = false) {s s' : StreamSystem} {op : StreamOp}
    (h : Calm s) (hs : callNext p s op = some s') :
    (FreedSafely s' → Calm s') ∧ (FreedSafely s' ↔ FreedSafely s ∧ stopsBeforeFree s op) := by
  have keeps : Calm s' ∧ s'.frees = s.frees → stopsBeforeFree s op →
      (FreedSafely s' → Calm s') ∧ (FreedSafely s' ↔ FreedSafely s ∧ stopsBeforeFree s op) := by
    intro hk hstops
    refine ⟨fun _ => hk.1,?_⟩
    unfold FreedSafely
    rw [hk.2]
    exact (and_iff_left hstops).symm
  unfold callNext at hs
  cases op with
  | setup env => exact keeps (h.setup (p := p) hs) fun hf => by cases hf
  | start => exact keeps (h.start (p := p) hs) fun hf => by cases hf
  | read w => exact keeps (h.read (p := p) hs) fun hf => by cases hf
  | stop => exact keeps (h.stop (p := p) hs) fun hf => by cases hf
  | wait signal => exact keeps (h.wait (p := p) hs) fun hf => by cases hf
  | poll status => simp [StreamOp.isCall, streamNext, hp] at hs
  | free =>
    obtain ⟨hcalm,hfrees⟩ := h.free (p := p) hs
    have hiff := freedSafely_append hfrees
    have hstops : s.engine.running = false ↔ stopsBeforeFree s .free := by
      refine ⟨fun hrun _ _ => hrun,fun hok => ?_⟩
      obtain ⟨⟨signal,hstage⟩,_⟩ := streamNext_free (p := p) hs
      cases signal with
      | false => exact h.waited hstage
      | true => exact hok rfl hstage
    exact ⟨fun hsafe => hcalm (hiff.mp hsafe).2,hiff.trans (and_congr_right fun _ => hstops)⟩
  | service wb o => exact keeps (h.service (p := p) hs) fun hf => by cases hf
  | perfStart request env => simp [StreamOp.isCall] at hs
  | perfStop regs copied => simp [StreamOp.isCall] at hs
  | asyncRead kernel r seg => simp [StreamOp.isCall] at hs

theorem callNext_frees {p : Params} {s s' : StreamSystem} {op : StreamOp}
    (h : callNext p s op = some s') : s.frees <+: s'.frees := by
  unfold callNext at h
  split at h
  · exact streamNext_frees h
  · cases h

/-- A close frees what the device writes to while the engine is stopped and off
the list, exactly if no close whose wait a signal ended comes to its free with the
engine running still. -/
theorem cyclicTransferTeardown_frees {p : Params} (hp : p.pollMode = false)
    {s₀ s : StreamSystem} {ops : List StreamOp} (h₀ : Unopened s₀)
    (r : Run (stepOf (callNext p)) anyStep s₀ ops s) :
    FreedSafely s ↔ Run (stepOf (callNext p)) stopsBeforeFree s₀ ops s := by
  refine (Run.kept_iff (fun s => FreedSafely s → Calm s) FreedSafely (fun _ => h₀.calm) ?_ ?_ r).2
  · intro f hf
    rw [h₀.frees] at hf
    cases hf
  · intro s op t hI ht
    by_cases hsafe : FreedSafely s
    · exact (hI hsafe).call hp ht
    · have hnot : ¬FreedSafely t := fun h => hsafe fun f hf => h f ((callNext_frees ht).mem hf)
      exact ⟨fun h => absurd h hnot,fun h => absurd h hnot,fun h => absurd h.1 hsafe⟩

instance (s : StreamSystem) (op : StreamOp) : Decidable (stopsBeforeFree s op) :=
  inferInstanceAs (Decidable (op.isFree = true → s.stage = .waited true → s.engine.running = false))

instance (s : StreamSystem) : Decidable (FreedSafely s) :=
  inferInstanceAs (Decidable (∀ f ∈ s.frees, f = ⟨false,false⟩))

def interruptedClose : List StreamOp := [.setup .ample,.start,.stop,.wait true,.free]

theorem cyclicTransferTeardown_frees_running :
    Unopened (.unopened ⟨false,false⟩) ∧ ∃ s,
      Run (stepOf (callNext ⟨false,false⟩)) anyStep (.unopened ⟨false,false⟩) interruptedClose s ∧
      ¬FreedSafely s :=
  ⟨unopened_unopened _,_,replay_run (by decide +kernel),by decide +kernel⟩

def stoppedClose : List StreamOp :=
  [.setup .ample,.start,.stop,.wait true,.service 0 ⟨⟨0,0⟩,[]⟩,.free]

theorem cyclicTransferTeardown_frees_stopped : ∃ s,
    Run (stepOf (callNext ⟨false,false⟩)) anyStep (.unopened ⟨false,false⟩) stoppedClose s ∧
      FreedSafely s := by
  have r : Run (stepOf (callNext ⟨false,false⟩)) anyStep (.unopened ⟨false,false⟩) stoppedClose
      (replay (callNext ⟨false,false⟩) (.unopened ⟨false,false⟩) stoppedClose) :=
    replay_run (by decide +kernel)
  refine ⟨_,r,(cyclicTransferTeardown_frees rfl (unopened_unopened _) r).mpr ?_⟩
  exact replay_ok (by decide +kernel)

end DmaCamera
