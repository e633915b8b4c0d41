import DmaCamera.SlotFlow
set_option autoImplicit false

namespace DmaCamera
open Circular Countdown Framing Runs

structure Return.Delivers (ret : Return) (l : List Slot) : Prop where
  rc : ret.rc = (payloads l).length
  user : ret.user = .holding (payloads l)

structure ReadSystem.Reading (n : Nat) (s : ReadSystem) : Prop where
  absent : ∀ i, n ≤ i → s.readers i = .idle
  progress : ∀ i, Progress s.rxBuffer (s.readers i) (s.rx.calls i)
  idle : ∀ i, (s.readers i).pc = .idle → (s.readers i).took = []
  signal : ∀ i rc, (s.readers i).pc = .checking rc → rc ≤ 0
  returns : ∀ ret ∈ s.returns, 0 ≤ ret.rc → ret.Delivers ret.took

structure ReadSystem.Flow (n : Nat) (s : ReadSystem) : Prop extends s.Stored, s.Reading n

theorem ReadSystem.opened_reading (n : Nat) (creditMode : Bool) :
    (ReadSystem.opened creditMode).Reading n where
  absent _ _ := rfl
  progress _ := Progress.fresh rfl
  idle _ _ := rfl
  signal _ _ h := by cases h
  returns := by simp [ReadSystem.opened]

theorem ReadSystem.opened_flow (n : Nat) (creditMode : Bool) :
    (ReadSystem.opened creditMode).Flow n :=
  ⟨opened_stored creditMode,opened_reading n creditMode⟩

def ReadSystem.sparesCopies (n : Nat) (s : ReadSystem) : Prop :=
  ∀ i < n, s.rx.filled % rxBufPages ∉ (s.readers i).pc.uncopied

instance (n : Nat) (s : ReadSystem) : Decidable (s.sparesCopies n) :=
  inferInstanceAs (Decidable (∀ _ < _, _))

def ReadSystem.fillsFree (n : Nat) (s : ReadSystem) : Prop := s.hasRoom ∧ s.sparesCopies n

instance (n : Nat) (s : ReadSystem) : Decidable (s.fillsFree n) :=
  inferInstanceAs (Decidable (_ ∧ _))

theorem Progress.resting {rxBuffer : Nat → Byte} {r : Reader} {call : Option CyclicCall}
    (h : Progress rxBuffer r call) (hpc : r.pc.between = true) : call = none ∧
      r.rcLen = (payloads r.took).length ∧ r.user = .holding (payloads r.took) := by
  cases h with
  | between _ => exact ⟨rfl,rfl,rfl⟩
  | copying => cases hpc
  | bumping => cases hpc
  | leaving hleave => rcases hleave with rfl | rfl <;> cases hpc

theorem Progress.goto {rxBuffer : Nat → Byte} {r : Reader} {call : Option CyclicCall} {pc : ReadPc}
    (h : Progress rxBuffer r call) (hpc : r.pc.between = true) (hto : pc.between = true) :
    Progress rxBuffer { r with pc := pc } call := by
  obtain ⟨rfl,hrc,huser⟩ := h.resting hpc
  rw [hrc, huser]
  exact .between hto

section steps

variable {n i : Nat} {s t : ReadSystem}

theorem ReadSystem.Reading.present (h : s.Reading n) (hpc : (s.readers i).pc ≠ .idle) : i < n := by
  by_contra hge
  rw [h.absent i (by omega)] at hpc
  exact hpc rfl

theorem ReadSystem.Reading.sole (h : s.Reading 1) {pc : ReadPc} (hpc : (s.readers i).pc = pc)
    (hbusy : pc ≠ .idle) : i = 0 := by
  have := h.present (hpc ▸ hbusy)
  omega

theorem ReadSystem.Reading.move {r : Reader} {call : Option CyclicCall} (h : s.Reading n)
    (hi : i < n) (hbuffer : t.rxBuffer = s.rxBuffer)
    (hreaders : t.readers = Function.update s.readers i r)
    (hcalls : t.rx.calls = Function.update s.rx.calls i call)
    (hprogress : Progress s.rxBuffer r call) (hidle : r.pc = .idle → r.took = [])
    (hsignal : ∀ rc, r.pc = .checking rc → rc ≤ 0)
    (hreturns : ∀ ret ∈ t.returns, 0 ≤ ret.rc → ret.Delivers ret.took) : t.Reading n := by
  refine ⟨fun j hj => ?_,fun j => ?_,fun j => ?_,fun j => ?_,hreturns⟩
  · have hne : j ≠ i := by omega
    rw [hreaders, Function.update_of_ne hne]
    exact h.absent j hj
  all_goals
    rw [hreaders]
    by_cases hji : j = i
  · subst j
    simpa [hcalls, hbuffer] using hprogress
  · simpa [hcalls, hbuffer, hji] using h.progress j
  · subst j
    simpa using hidle
  · simpa [hji] using h.idle j
  · subst j
    simpa using hsignal
  · simpa [hji] using h.signal j

theorem ReadSystem.Reading.goto {pc : ReadPc} (h : s.Reading n)
    (hpc : (s.readers i).pc.between = true) (hbusy : (s.readers i).pc ≠ .idle)
    (hto : pc.between = true) (hidle : pc ≠ .idle) (hsignal : ∀ rc, pc = .checking rc → rc ≤ 0) :
    (s.goto i pc).Reading n :=
  h.move (h.present hbusy) rfl rfl (Function.update_eq_self i _).symm
    ((h.progress i).goto hpc hto) (fun hp => absurd hp hidle) hsignal h.returns

theorem ReadSystem.Reading.leave {rc : Int} (h : s.Reading n)
    (hpc : (s.readers i).pc.between = true) (hbusy : (s.readers i).pc ≠ .idle)
    (hrc : 0 ≤ rc → rc = (s.readers i).rcLen) : (s.leave i rc).Reading n := by
  obtain ⟨hcall,hlen,huser⟩ := (h.progress i).resting hpc
  refine h.move (h.present hbusy) rfl rfl (Function.update_eq_self i _).symm
    (hcall ▸ Progress.fresh rfl) (fun _ => rfl) (fun rc hc => by cases hc) ?_
  intro ret hret hpos
  simp only [ReadSystem.leave, List.mem_append, List.mem_singleton] at hret
  rcases hret with hret | rfl
  · exact h.returns ret hret hpos
  · exact ⟨(hrc hpos).trans hlen,huser⟩

theorem ReadSystem.Reading.start (h : s.Reading n) (hi : i < n) (hpc : (s.readers i).pc = .idle) :
    (s.start i).Reading n := by
  have hcall := ((h.progress i).resting (by rw [hpc]; rfl)).1
  exact h.move hi rfl rfl (Function.update_eq_self i _).symm (hcall ▸ Progress.fresh rfl)
    (fun hc => by cases hc) (fun rc hc => by cases hc) h.returns

theorem ReadSystem.Reading.service {creditMode : Bool} (h : s.Reading n) :
    (s.service creditMode s.rx.process).Reading n :=
  ⟨h.absent,fun j => (h.progress j).late s.rx.ring.raises,h.idle,h.signal,h.returns⟩

theorem ReadSystem.Reading.fill {x : Slot} (h : s.Reading n) (hx : x.WellFormed)
    (hspares : s.sparesCopies n) : (s.fill x (s.rx.fill x.result)).Reading n := by
  refine ⟨h.absent,fun j => ?_,h.idle,h.signal,h.returns⟩
  refine (h.progress j).buffer fun i hi k hk => ReadSystem.fill_elsewhere hx ?_ hk
  rintro rfl
  by_cases hj : j < n
  · exact hspares j hj hi
  · rw [h.absent j (by omega)] at hi
    simp [Reader.idle, ReadPc.uncopied] at hi

theorem ReadSystem.Reading.lock (h : s.Reading n) (hi : i < n) (hpc : (s.readers i).pc = .entering)
    (hstored : s.Stored) (hoff : s.rx.ring.rxOverrun = false) :
    (s.lock i (s.rx.lock i)).Reading n := by
  have htaking := hstored.taking hoff
  obtain ⟨_,hrcLen,huser⟩ := (h.progress i).resting (by rw [hpc]; rfl)
  refine h.move hi rfl (htaking.reader i) (htaking.calls i) ?_ (fun hp => by cases hp)
    (fun rc hp => by cases hp) h.returns
  rw [Reader.copies, hrcLen, huser]
  refine .copying s.rx.ring.head_lt htaking.stretch ?_ rfl ?_
  · rw [hstored.order.head]
    intro j x hx
    have hheld := hstored.data.take s.rx.ring.complete.numCredit j x hx
    simpa [HoldsAt] using hheld
  · simp [RxRing.unlocked, htaking.pktLength]

def ReadSystem.inPlace (s : ReadSystem) (i : Nat) : Bool :=
  match (s.readers i).pc, s.rx.calls i with
  | .copying remaining _, some call =>
    (s.userBufferIndex : Int)+remaining == (s.readers i).rcLen+call.pktLength
  | _, _ => true

theorem ReadSystem.Reading.copy {remaining head : Nat} (h : s.Reading n)
    (hpc : (s.readers i).pc = .copying remaining head) (hpos : remaining ≠ 0)
    (hplace : s.inPlace i = true) : (s.copy i remaining head 0 s.rx).Reading n := by
  have hi := h.present (i := i) (by simp [hpc])
  have hprogress := h.progress i
  have hcalls : (s.copy i remaining head 0 s.rx).rx.calls =
      Function.update s.rx.calls i (s.rx.calls i) := (Function.update_eq_self i _).symm
  refine h.move hi rfl rfl hcalls ?_
    (fun hp => by cases hp) (fun rc hp => by cases hp) h.returns
  obtain ⟨front,rest,rcLen,call,hr,hcall,hleft,hhead,hrest,hdata,hrc,hlen⟩ :=
    hprogress.copying_inv hpc
  simp only [inPlace, hr, hcall, beq_iff_eq] at hplace
  cases rest with
  | nil => exact absurd hleft hpos
  | cons x rest =>
    subst hleft
    have hindex : s.userBufferIndex = (payloads front).length := by
      rw [payloads_append, List.length_append] at hlen
      push_cast at hlen
      omega
    have hwrite : (UserBuffer.holding (payloads front)).write s.userBufferIndex x.payload.length
        (fun k => s.rxBuffer (head*rxBufBlock+k)) = .holding (payloads (front ++ [x])) := by
      rw [hindex, UserBuffer.write_holding fun k hk => ?_, payloads_append, payloads_cons,
        payloads_nil, List.append_nil]
      have hx := hdata.head k hk
      rwa [Nat.mod_eq_of_lt hhead] at hx
    simp only [hr, hcall, hrest.copyLength, Nat.sub_zero, if_true, hwrite]
    exact .bumping hhead hrest hdata.tail hrc hlen

theorem ReadSystem.Reading.copied {head : Nat} {call : CyclicCall} (h : s.Reading n)
    (hpc : (s.readers i).pc = .copying 0 head) (hcall : s.rx.calls i = some call) :
    (s.pass i .clearing (s.rx.copied i call call.pktLength)).Reading n := by
  have hi := h.present (i := i) (by simp [hpc])
  have hprogress := h.progress i
  refine h.move hi rfl rfl rfl ?_
    (fun hp => by cases hp) (fun rc hp => by cases hp) h.returns
  obtain ⟨front,rest,rcLen,c,hr,hc,hleft,_,hrest,_,_,hlen⟩ := hprogress.copying_inv hpc
  obtain rfl := Option.some.inj (hcall.symm.trans hc)
  obtain rfl := hrest.eq_nil hleft.symm
  rw [List.append_nil] at hr hlen
  rw [hr]
  exact .leaving (Or.inl rfl) rfl hlen

theorem ReadSystem.Reading.bump {copy remaining head : Nat} (h : s.Reading n)
    (hpc : (s.readers i).pc = .bumping copy remaining head) :
    (s.bump i copy remaining head).Reading n := by
  have hi := h.present (i := i) (by simp [hpc])
  have hprogress := h.progress i
  have hcalls : (s.bump i copy remaining head).rx.calls =
      Function.update s.rx.calls i (s.rx.calls i) := (Function.update_eq_self i _).symm
  refine h.move hi rfl rfl hcalls ?_
    (fun hp => by cases hp) (fun rc hp => by cases hp) h.returns
  obtain ⟨front,rest,x,rcLen,c,hr,hcall,hcopy,hleft,hrest,hdata,hrc,hlen⟩ :=
    hprogress.bumping_inv hpc
  have hrem : remaining-copy = (payloads rest).length := by
    rw [hcopy, hleft, payloads_cons, List.length_append, Nat.add_sub_cancel_left]
  have hsplit : front ++ x :: rest = front ++ [x] ++ rest := List.append_cons ..
  rw [hsplit] at hr hlen
  simp only [hr, hcall, hrem]
  refine .copying (Nat.mod_lt _ (by decide)) hrest.tail (fun j y hy => ?_) hrc hlen
  have hheld := hdata j y hy
  simpa [HoldsAt] using hheld

theorem ReadSystem.Reading.clear {call : CyclicCall} (h : s.Reading n) (hpc : (s.readers i).pc = .clearing)
    (hcall : s.rx.calls i = some call) : (s.pass i .crediting (s.rx.clear i call)).Reading n := by
  have hi := h.present (i := i) (by simp [hpc])
  have hprogress := h.progress i
  refine h.move hi rfl rfl rfl ?_
    (fun hp => by cases hp) (fun rc hp => by cases hp) h.returns
  obtain ⟨rcLen,c,hr,hc,hrc,hlen⟩ := hprogress.leaving_inv (Or.inl hpc)
  obtain rfl := Option.some.inj (hcall.symm.trans hc)
  rw [hr]
  exact .leaving (Or.inr rfl) hrc hlen

theorem ReadSystem.Reading.credit {call : CyclicCall} (h : s.Reading n) (hpc : (s.readers i).pc = .crediting)
    (hcall : s.rx.calls i = some call) : (s.credit i (s.rx.credit i call)).Reading n := by
  have hi := h.present (i := i) (by simp [hpc])
  have hprogress := h.progress i
  refine h.move hi rfl rfl rfl ?_
    (fun hp => by cases hp) (fun rc hp => by cases hp) h.returns
  obtain ⟨rcLen,c,hr,hc,hrc,hlen⟩ := hprogress.leaving_inv (Or.inr hpc)
  obtain rfl := Option.some.inj (hcall.symm.trans hc)
  simp only [RxSystem.rc, hcall, Option.bind_some, hrc, Option.getD_some]
  rw [hr, hlen]
  exact .between rfl

/-- What the bytes of the calls rest on: the device spares what is being copied, and
copies succeed at the index the call has got to. -/
def keepsCopies (n : Nat) (s : ReadSystem) : ReadOp → Prop
  | .fill x => x.WellFormed ∧ s.sparesCopies n
  | .copy i uncopied => uncopied = 0 ∧ s.inPlace i = true
  | _ => True

theorem ReadSystem.Reading.step {c : RxSetting} {op : ReadOp} (h : s.Reading c.readers)
    (hok : keepsCopies c.readers s op)
    (hlock : ∀ i, op = .lock i → s.Stored ∧ s.rx.ring.rxOverrun = false)
    (hstep : ReadStep c s op t) : t.Reading c.readers := by
  cases hstep with
  | fill => exact h.fill hok.1 hok.2
  | service => exact h.service
  | start hi hpc => exact h.start hi hpc
  | wait hpc =>
    refine h.goto (by rw [hpc]; rfl) (by simp [hpc]) rfl (by simp) fun rc hrc => ?_
    cases hrc
    split
    · decide
    · exact Int.le_refl 0
  | again hpc | enter hpc => exact h.goto (by rw [hpc]; rfl) (by simp [hpc]) rfl (by simp) (by simp)
  | interrupted hpc hrc =>
    refine h.leave (by rw [hpc]; rfl) (by simp [hpc]) fun hpos => ?_
    have hneg := h.signal _ _ hpc
    omega
  | lock hpc hi =>
    obtain ⟨hstored,hoff⟩ := hlock _ rfl
    exact h.lock hi hpc hstored hoff
  | copy hpc hpos => exact h.copy hpc hpos hok.2
  | copyFails _ hpos => exact absurd hok.1 hpos
  | copied hpc hcall => exact h.copied hpc hcall
  | bump hpc => exact h.bump hpc
  | clear hpc hcall => exact h.clear hpc hcall
  | credit hpc hcall => exact h.credit hpc hcall
  | test hpc =>
    refine h.goto (by rw [hpc]; rfl) (by simp [hpc]) ?_ ?_ ?_
    all_goals split <;> simp [ReadPc.between]
  | finish hpc =>
    have hleft := h.leave (by rw [hpc]; rfl) (by simp [hpc]) fun _ => Eq.refl (s.readers _).rcLen
    exact ⟨hleft.absent,hleft.progress,hleft.idle,hleft.signal,hleft.returns⟩

/-- What the order of the bytes rests on: well-formed slots for which there is room,
no overrun, and copies that succeed in place. -/
def keepsBytes (n : Nat) (s : ReadSystem) : ReadOp → Prop
  | .fill x => x.WellFormed ∧ s.fillsFree n
  | .lock _ => s.rx.ring.rxOverrun = false
  | .copy i uncopied => uncopied = 0 ∧ s.inPlace i = true
  | .clear _ => s.rx.ring.rxOverrun = false
  | _ => True

theorem keepsBytes.copies {op : ReadOp} (h : keepsBytes n s op) : keepsCopies n s op := by
  cases op with
  | fill x => exact ⟨h.1,h.2.2⟩
  | copy i uncopied => exact h
  | _ => trivial

theorem ReadSystem.Flow.step {c : RxSetting} {op : ReadOp} (h : s.Flow c.readers)
    (hok : keepsBytes c.readers s op) (hstep : ReadStep c s op t) : t.Flow c.readers := by
  refine ⟨h.toStored.step ?_ ?_ hstep,h.toReading.step hok.copies ?_ hstep⟩
  · rintro x rfl
    exact ⟨hok.1,hok.2.1⟩
  · rintro i (rfl | rfl) <;> exact hok
  · rintro i rfl
    exact ⟨h.toStored,hok⟩

theorem ReadSystem.Flow.step_sole {c : RxSetting} {op : ReadOp} (h : s.Flow 1) (hone : c.readers = 1)
    (hok : keepsBytes 1 s op) (hstep : ReadStep c s op t) : t.Flow 1 := by
  rw [← hone] at h hok ⊢
  exact h.step hok hstep

end steps

end DmaCamera
