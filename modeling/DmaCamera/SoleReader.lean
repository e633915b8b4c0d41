import DmaCamera.ReadOrder
import DmaCamera.Credits
set_option autoImplicit false

namespace DmaCamera
open Circular Countdown Framing Runs

abbrev Slot.size (x : Slot) : Nat := x.payload.length

theorem payloads_total (l : List Slot) : (payloads l).length = total Slot.size l := payloads_length l

theorem delivers_frames {returns : List Return} {sent rest : List Slot}
    (h : ∀ ret ∈ returns, IsFrame Slot.eop ret.took ∧ ret.Delivers ret.took)
    (hsent : sent = returns.flatMap Return.took ++ rest) :
    List.Forall₂ Return.Delivers returns ((frames Slot.eop sent).take returns.length) := by
  have hframes : ∀ p ∈ returns.map Return.took, IsFrame Slot.eop p := by
    intro p hp
    obtain ⟨ret,hret,rfl⟩ := List.mem_map.mp hp
    exact (h ret hret).1
  rw [hsent, List.flatMap_def, frames_flatten hframes, List.take_left' (List.length_map _),
    List.forall₂_map_right_iff, List.forall₂_same]
  exact fun ret hret => (h ret hret).2

def ReadSystem.served (s : ReadSystem) : List Return :=
  s.returns.filter fun ret => decide (0 ≤ ret.rc)

theorem ReadSystem.served_took {s : ReadSystem} (h : ∀ ret ∈ s.returns, ret.rc < 0 → ret.took = []) :
    s.served.flatMap Return.took = s.returns.flatMap Return.took := by
  rw [served]
  generalize s.returns = returns at h
  induction returns with
  | nil => rfl
  | cons ret returns ih =>
    have hrest := ih fun x hx => h x (by simp [hx])
    by_cases hrc : 0 ≤ ret.rc
    · rw [List.filter_cons_of_pos (by simpa using hrc), List.flatMap_cons, List.flatMap_cons, hrest]
    · rw [List.filter_cons_of_neg (by simpa using hrc), List.flatMap_cons,
        h ret (by simp) (by omega), hrest, List.nil_append]

/-- Credit mode: the device completes well-formed slots, no packet is longer than
the caller's buffer, nothing interrupts a wait, and every copy succeeds. -/
def undisturbed (limit : Nat) (s : ReadSystem) : ReadOp → Prop
  | .fill x => x.WellFormed ∧ fits Slot.eop Slot.size limit (s.sent ++ [x]) = true
  | .start _ count => limit ≤ count
  | .wait _ signal => signal = false
  | .copy _ uncopied => uncopied = 0
  | _ => True

instance (limit : Nat) (s : ReadSystem) : (op : ReadOp) → Decidable (undisturbed limit s op)
  | .fill _ => inferInstanceAs (Decidable (_ ∧ _))
  | .start .. => inferInstanceAs (Decidable (_ ≤ _))
  | .wait .. | .copy .. => inferInstanceAs (Decidable (_ = _))
  | .service | .check _ | .lock _ | .copied _ | .bump _ | .clear _ | .credit _ | .test _
  | .finish _ => inferInstanceAs (Decidable True)

structure Reader.InPacket (r : Reader) (eopFound : Bool) : Prop where
  flag : eopFound = closes Slot.eop r.took
  begun : r.pc.early = true → eopFound = false
  ended : r.pc = .resetting → eopFound = true
  unbroken : Unbroken Slot.eop r.took
  quiet : ∀ rc, r.pc = .checking rc → rc = 0

theorem Reader.idle_inPacket : Reader.idle.InPacket false where
  flag := rfl
  begun _ := rfl
  ended h := by cases h
  unbroken := unbroken_nil
  quiet _ h := by cases h

/-- The slots a copy has still to read are right behind the head, and their credits
are held. -/
def RxSystem.Behind (s : RxSystem) (uncopied : List Nat) : Prop :=
  ∃ k ≤ s.consumed, k ≤ heldBy (s.calls 0) ∧ uncopied = span rxBufPages (s.consumed-k) k

theorem RxSystem.behind_nil (s : RxSystem) : s.Behind [] := ⟨0,Nat.zero_le _,Nat.zero_le _,rfl⟩

structure ReadSystem.Whole (limit : Nat) (s : ReadSystem) : Prop extends s.Flow 1, s.Sole where
  credited : s.rx.Credited 1
  fits : fits Slot.eop Slot.size limit s.sent = true
  served : limit ≤ maxRwCount ∨ (s.readers 0).pc = .idle
  inPacket : (s.readers 0).InPacket s.eopFound
  behind : s.rx.Behind (s.readers 0).pc.uncopied
  whole : ∀ ret ∈ s.returns, IsFrame Slot.eop ret.took ∧ ret.Delivers ret.took

section whole

variable {limit : Nat} {s t : ReadSystem} {op : ReadOp} {c : RxSetting}

theorem ReadSystem.opened_whole : (ReadSystem.opened true).Whole limit where
  toFlow := ReadSystem.opened_flow 1 true
  toSole := ReadSystem.opened_sole true
  credited := (cyclicTransferSetup_credited 1).1
  fits := rfl
  served := Or.inr rfl
  inPacket := Reader.idle_inPacket
  behind := RxSystem.behind_nil _
  whole := by simp [ReadSystem.opened]

theorem ReadSystem.Whole.took_le (h : s.Whole limit) :
    (payloads (s.readers 0).took).length ≤ limit := by
  have hfits := h.fits
  rw [h.toSole.sent_eq, List.flatMap_def] at hfits
  rw [payloads_total]
  refine fits_unbroken (fits_flatten (fun p hp => ?_) hfits) h.inPacket.unbroken
  obtain ⟨ret,hret,rfl⟩ := List.mem_map.mp hp
  exact (h.whole ret hret).1

theorem ReadSystem.Whole.took_lt (h : s.Whole limit) :
    (payloads (s.readers 0).took).length < 2^32 := by
  rcases h.served with hserved | hidle
  · have hle := h.took_le
    simp only [maxRwCount] at hserved
    omega
  · rw [h.idle 0 hidle]
    decide

theorem ReadSystem.Whole.fillsFree (h : s.Whole limit) (hpos : 0 < s.rx.credits) :
    s.fillsFree 1 := by
  have hbound := h.credited.bound
  have hfilled := h.order.filled
  obtain ⟨k,hk,hheld,huncopied⟩ := h.behind
  have htotal : s.rx.held 1 = heldBy (s.rx.calls 0) := by simp [RxSystem.held]
  simp only [RxSystem.account, htotal, initialCredits] at hbound
  refine ⟨h.order.slot_free h.credited.few.1,fun i hi => ?_⟩
  obtain rfl : i = 0 := by omega
  have hN : rxBufPages = 256 := rfl
  rw [huncopied, mem_span_slot (by omega) (by omega) (by omega)]
  omega

theorem ReadSystem.Whole.keepsBytes (h : s.Whole limit) (hok : undisturbed limit s op)
    (hc : c.creditMode = true) (hstep : ReadStep c s op t) : keepsBytes 1 s op := by
  have hoff := h.order.off h.credited.few.2
  cases hstep with
  | fill _ _ hpos => exact ⟨hok.1,h.fillsFree (hpos hc)⟩
  | lock => exact hoff
  | clear => exact hoff
  | copy => exact ⟨rfl,h.toSole.inPlace h.toReading _⟩
  | copyFails _ hpos => exact absurd hok hpos
  | _ => trivial

theorem Reader.InPacket.copies {r : Reader} {eopFound : Bool} {l : List Slot} (h : r.InPacket eopFound)
    (hpc : r.pc = .entering) (hl : Unbroken Slot.eop l) (length head : Nat) :
    (r.copies length head l).InPacket (eopFound || closes Slot.eop l) := by
  have hbegun := h.begun (by rw [hpc]; rfl)
  have hopen : closes Slot.eop r.took = false := h.flag.symm.trans hbegun
  refine ⟨?_,fun hp => (by cases hp),fun hp => (by cases hp),?_,fun _ hp => (by cases hp)⟩
  · simp only [hbegun, Bool.false_or, Reader.copies]
    by_cases hnil : l = []
    · simp [hnil, hopen]
    · rw [closes_append hnil]
  · exact Unbroken.append (h.unbroken.plain hopen) hl

theorem Reader.InPacket.goto {r r' : Reader} {eopFound : Bool} (h : r.InPacket eopFound)
    (htook : r'.took = r.took) (hbegun : r'.pc.early = true → r.pc.early = true ∨ eopFound = false)
    (hended : r'.pc = .resetting → eopFound = true)
    (hquiet : ∀ rc, r'.pc = .checking rc → rc = 0) : r'.InPacket eopFound where
  flag := htook ▸ h.flag
  begun hp := (hbegun hp).elim h.begun id
  ended := hended
  unbroken := htook ▸ h.unbroken
  quiet := hquiet

theorem ReadSystem.Whole.inPacket_step (h : s.Whole limit) (hc : c.creditMode = true)
    (hone : c.readers = 1) (hok : undisturbed limit s op) (hstep : ReadStep c s op t) :
    (t.readers 0).InPacket t.eopFound := by
  have hr := h.inPacket
  cases hstep with
  | fill => exact hr
  | service => simpa [ReadSystem.service, hc] using hr
  | @start i count hi hpc _ =>
    obtain rfl : i = 0 := by omega
    refine hr.goto ?_ (fun _ => Or.inl (by rw [hpc]; rfl)) (fun hp => by simp at hp)
      fun rc hp => by simp at hp
    rw [ReadSystem.start_self, h.idle 0 hpc]
  | wait hpc _ =>
    obtain rfl := h.toReading.sole hpc (by simp)
    have hsignal : _ = false := hok
    refine hr.goto (by simp) (fun _ => Or.inl (by rw [hpc]; rfl)) (fun hp => by simp at hp) ?_
    simp [hsignal]
  | interrupted hpc hrc =>
    obtain rfl := h.toReading.sole hpc (by simp)
    exact absurd (hr.quiet _ hpc) hrc
  | again hpc | enter hpc =>
    obtain rfl := h.toReading.sole hpc (by simp)
    exact hr.goto (by simp) (fun _ => Or.inl (by rw [hpc]; rfl)) (fun hp => by simp at hp) (by simp)
  | lock hpc =>
    obtain rfl := h.toReading.sole hpc (by simp)
    have htaking := h.toStored.taking (h.order.off h.credited.few.2)
    have hnext := hr.copies hpc htaking.stretch.2 (payloads s.batch).length s.rx.ring.rxHead
    rw [htaking.closes] at hnext
    rw [htaking.reader, Function.update_self]
    exact hnext
  | copyFails _ hpos => exact absurd hok hpos
  | copy hpc | copied hpc | bump hpc | clear hpc | credit hpc =>
    obtain rfl := h.toReading.sole hpc (by simp)
    exact hr.goto (by simp) (fun hp => by simp [ReadPc.early] at hp) (fun hp => by simp at hp)
      (by simp)
  | test hpc =>
    obtain rfl := h.toReading.sole hpc (by simp)
    refine hr.goto (by simp) (fun hp => ?_) (fun hp => ?_) fun rc hp => ?_
    · cases he : s.eopFound with
      | true => simp [he, ReadPc.early] at hp
      | false => exact Or.inr rfl
    · by_contra he
      simp [he] at hp
    · cases he : s.eopFound <;> simp [he] at hp
  | finish hpc =>
    obtain rfl := h.toReading.sole hpc (by simp)
    rw [ReadSystem.finish_self]
    simpa [ReadSystem.finish, hc] using Reader.idle_inPacket

theorem ReadPc.uncopied_copying {remaining : Nat} (head : Nat) (hpos : remaining ≠ 0) :
    (ReadPc.copying remaining head).uncopied = head % rxBufPages ::
      (ReadPc.bumping (DmaCamera.copyLength remaining) remaining head).uncopied := by
  have hblocks : (remaining+(rxBufBlock-1))/rxBufBlock =
      1+(remaining-DmaCamera.copyLength remaining+(rxBufBlock-1))/rxBufBlock := by
    unfold DmaCamera.copyLength
    by_cases hmore : remaining > rxBufBlock
    · rw [if_pos hmore]
      simp only [rxBufBlock] at hmore ⊢
      omega
    · rw [if_neg hmore]
      simp only [rxBufBlock] at hmore ⊢
      omega
  simp only [uncopied, hblocks, span_add]
  simp [span]

theorem ReadPc.uncopied_bumping (copy remaining head : Nat) :
    (ReadPc.copying (remaining-copy) ((head+1) % rxBufPages)).uncopied =
      (ReadPc.bumping copy remaining head).uncopied := span_mod

theorem ReadSystem.Whole.behind_step (h : s.Whole limit) (hone : c.readers = 1) (hok : undisturbed limit s op)
    (hstep : ReadStep c s op t) : t.rx.Behind (t.readers 0).pc.uncopied := by
  have hbehind := h.behind
  have hnil : ∀ {pc : ReadPc}, (t.readers 0).pc = pc → pc.uncopied = [] →
      t.rx.Behind (t.readers 0).pc.uncopied := by
    intro pc hpc hempty
    rw [hpc, hempty]
    exact t.rx.behind_nil
  cases hstep with
  | fill => exact hbehind
  | service =>
    obtain ⟨k,hk,hheld,heq⟩ := hbehind
    refine ⟨k,hk,?_,heq⟩
    simp only [ReadSystem.service, s.rx.process_calls]
    cases hcall : s.rx.calls 0 <;> simpa [hcall, heldBy] using hheld
  | @start i _ hi hpc _ =>
    obtain rfl : i = 0 := by omega
    exact hnil rfl (by simp [ReadPc.uncopied])
  | lock hpc =>
    obtain rfl := h.toReading.sole hpc (by simp)
    have htaking := h.toStored.taking (h.order.off h.credited.few.2)
    have hconsumed := htaking.consumed 0
    have hblocks := htaking.stretch.blocks
    rw [htaking.length] at hblocks
    refine ⟨s.rx.ring.complete.numCredit,?_,?_,?_⟩
    · omega
    · rw [htaking.calls, Function.update_self]
      exact Nat.le_refl _
    · rw [hconsumed, Nat.add_sub_cancel, ← span_mod (a := s.rx.consumed), ← h.order.head,
        htaking.reader, Function.update_self, Reader.copies, ReadPc.uncopied, hblocks]
  | copy hpc hpos =>
    obtain rfl := h.toReading.sole hpc (by simp)
    obtain ⟨k,hk,hheld,heq⟩ := hbehind
    rw [hpc, ReadPc.uncopied_copying _ hpos] at heq
    cases k with
    | zero => simp at heq
    | succ k =>
      rw [Nat.add_comm k 1, span_add] at heq
      have htail := (List.cons.inj heq).2
      have hat : s.rx.consumed-(1+k)+1 = s.rx.consumed-k := by omega
      rw [hat] at htail
      rw [ReadSystem.copy_pc, if_pos rfl]
      exact ⟨k,Nat.le_of_succ_le hk,Nat.le_of_succ_le hheld,htail⟩
  | copyFails _ hpos => exact absurd hok hpos
  | bump hpc =>
    obtain rfl := h.toReading.sole hpc (by simp)
    rw [ReadSystem.bump_self, ReadPc.uncopied_bumping, ← hpc]
    exact hbehind
  | wait hpc | again hpc | enter hpc | copied hpc | clear hpc | credit hpc =>
    obtain rfl := h.toReading.sole hpc (by simp)
    exact hnil rfl (by simp [ReadPc.uncopied])
  | interrupted hpc | finish hpc =>
    obtain rfl := h.toReading.sole hpc (by simp)
    exact hnil rfl (by simp [Reader.idle, ReadPc.uncopied])
  | test hpc =>
    obtain rfl := h.toReading.sole hpc (by simp)
    refine hnil rfl ?_
    rw [ReadSystem.goto_self]
    cases s.eopFound <;> rfl

theorem ReadSystem.Whole.served_step (h : s.Whole limit) (hok : undisturbed limit s op)
    (hstep : ReadStep c s op t) : limit ≤ maxRwCount ∨ (t.readers 0).pc = .idle := by
  rcases h.served with hle | hidle
  · exact Or.inl hle
  · cases hstep with
    | fill | service => exact Or.inr hidle
    | start hi hpc hcount => exact Or.inl (Nat.le_trans hok hcount)
    | wait hpc | again hpc | interrupted hpc | enter hpc | lock hpc | copy hpc | copyFails hpc
    | copied hpc | bump hpc | clear hpc | credit hpc | test hpc | finish hpc =>
      obtain rfl := h.toReading.sole hpc (by simp)
      simp [hidle] at hpc

theorem ReadSystem.Whole.whole_step (h : s.Whole limit) (hstep : ReadStep c s op t) :
    ∀ ret ∈ t.returns, IsFrame Slot.eop ret.took ∧ ret.Delivers ret.took := by
  cases hstep with
  | interrupted hpc hrc =>
    obtain rfl := h.toReading.sole hpc (by simp)
    exact absurd (h.inPacket.quiet _ hpc) hrc
  | finish hpc =>
    obtain rfl := h.toReading.sole hpc (by simp)
    obtain ⟨_,hrcLen,huser⟩ := (h.progress 0).resting (by rw [hpc]; rfl)
    intro ret hret
    simp only [ReadSystem.finish, ReadSystem.leave, List.mem_append, List.mem_singleton] at hret
    rcases hret with hret | rfl
    · exact h.whole ret hret
    · have hclosed := h.inPacket.flag.symm.trans (h.inPacket.ended hpc)
      exact ⟨⟨hclosed,h.inPacket.unbroken⟩,⟨hrcLen,huser⟩⟩
  | _ => exact h.whole

theorem ReadSystem.Whole.step (hc : c.creditMode = true) (hone : c.readers = 1) (h : s.Whole limit)
    (hok : undisturbed limit s op) (hn : readNext c s op = some t) : t.Whole limit := by
  have hstep := readNext_step hn
  have hkeeps := h.keepsBytes hok hc hstep
  refine ⟨h.toFlow.step_sole hone hkeeps hstep,h.toSole.step_flow hone h.toFlow hkeeps h.took_lt hstep,
    ?_,?_,h.served_step hok hstep,h.inPacket_step hc hone hok hstep,h.behind_step hone hok hstep,
    h.whole_step hstep⟩
  · rcases readNext_rx hn with heq | ⟨rxOp,hrx⟩
    · rw [heq]
      exact h.credited
    · have hcredited := h.credited
      rw [← hone] at hcredited ⊢
      exact (hcredited.step hc hrx).1
  · cases hstep with
    | fill => exact hok.2
    | _ => exact h.fits

end whole

/-- The `k`-th read to return delivers the `k`-th packet. -/
theorem run_deliversPackets {limit : Nat} {ops : List ReadOp} {s : ReadSystem}
    (r : Run (stepOf (readNext ⟨true,1,fun _ => true⟩)) (undisturbed limit) (.opened true) ops s) :
    List.Forall₂ Return.Delivers s.returns ((frames Slot.eop s.sent).take s.returns.length) := by
  have h : s.Whole limit := r.invariant (ReadSystem.Whole limit) ReadSystem.opened_whole
    fun s op t hs hok hn => hs.step rfl rfl hok hn
  exact delivers_frames h.whole h.toSole.sent_eq

def twoSectionOps : List ReadOp :=
  [.start 0 4100,.fill ⟨⟨0x52B40000,4096⟩,List.replicate 4096 5⟩,.service,.wait 0 false,.check 0,
    .lock 0,.copy 0 0,.fill ⟨⟨0x52B40001,2⟩,[6,7]⟩,.bump 0,.copied 0,.clear 0,.credit 0,.test 0,
    .service,.wait 0 false,.check 0,.lock 0,.copy 0 0,.bump 0,.copied 0,.clear 0,.credit 0,.test 0,
    .finish 0]

def twoSections : ReadSystem :=
  replay (readNext ⟨true,1,fun _ => true⟩) (.opened true) twoSectionOps

theorem run_deliversPackets_twoSections : List.Forall₂ Return.Delivers twoSections.returns
    ((frames Slot.eop twoSections.sent).take twoSections.returns.length) ∧
    twoSections.returns.map Return.rc = [4098] := by
  have hrun : Run (stepOf (readNext ⟨true,1,fun _ => true⟩)) (undisturbed 4100) (.opened true)
      twoSectionOps twoSections := replay_ok (by decide +kernel)
  exact ⟨run_deliversPackets hrun,by decide +kernel⟩

end DmaCamera
