import DmaCamera.BypassRead
import DmaCamera.Library.Locking
import DmaCamera.MsixRouting
set_option autoImplicit false

namespace DmaCamera
open Runs Locking Probe

/-! The bypass nodes: descriptors written to the engines word by word, each engine by its
own place on the bypass BAR. -/

/-- A call of `char_bypass_write`; `fault` says where `copy_from_user` fails. -/
structure BypassWrite where
  bufNull : Bool
  bypassBar : Bool
  count : Nat
  user : Nat → Byte
  fault : Nat → Bool

def BypassWrite.accepted (w : BypassWrite) : Bool :=
  w.count &&& 3 == 0 && !w.bufNull && w.bypassBar

def BypassWrite.word (w : BypassWrite) (o : Nat) : U32 :=
  w.user (o+3) ++ w.user (o+2) ++ w.user (o+1) ++ w.user o

structure BypassLoop where
  bufOffset : Nat
  rc : Int

def bypassAccess (w : BypassWrite) (l : BypassLoop) (posted : List U32) :
    (BypassLoop ⊕ Int) × List U32 :=
  if l.bufOffset < w.count then
    if w.fault l.bufOffset then (.inr (-eInval),posted)
    else
      let bufOffset := (l.bufOffset+4) % 2^64
      -- the offset is returned as an `int`
      (.inl ⟨bufOffset,Int.bmod bufOffset (2^32)⟩,posted ++ [w.word l.bufOffset])
  else (.inr l.rc,posted)

def bypassProgram : Program BypassWrite BypassLoop (List U32) Int where
  start _ := ⟨0,0⟩
  access := bypassAccess

def bypassRounds (w : BypassWrite) : Nat → BypassLoop → List U32 → Int × List U32
  | 0, l, posted => (l.rc,posted)
  | fuel+1, l, posted => match bypassAccess w l posted with
    | (.inl l',posted') => bypassRounds w fuel l' posted'
    | (.inr rc,posted') => (rc,posted')

def charBypassWrite (w : BypassWrite) : Int × List U32 :=
  if w.count &&& 3 ≠ 0 then (-eInval,[])
  else if w.bufNull then (-eInval,[])
  else if !w.bypassBar then (-eNoDev,[])
  else bypassRounds w (w.count+1) ⟨0,0⟩ []

section call

variable {w : BypassWrite}

def BypassWrite.words (w : BypassWrite) (n : Nat) : List U32 :=
  (List.range n).map fun k => w.word (4*k)

theorem words_succ (n : Nat) : w.words (n+1) = w.words n ++ [w.word (4*n)] := by
  simp [BypassWrite.words, List.range_succ]

/-- A call that has written `n` words and found `posted` before. -/
structure Written (w : BypassWrite) (posted : List U32) (n : Nat) (l : BypassLoop)
    (now : List U32) : Prop where
  offset : l.bufOffset = 4*n
  rc : l.rc = (4*n : Nat)
  room : 4*n ≤ w.count
  words : now = posted ++ w.words n
  clean : ∀ k < n, w.fault (4*k) = false

/-- The call has come to its end: all words, or those in front of the first fault. -/
def BypassWrite.Ended (w : BypassWrite) (rc : Int) (words : List U32) : Prop :=
  (rc = w.count ∧ words = w.words (w.count/4) ∧ ∀ k < w.count/4, w.fault (4*k) = false) ∨
    ∃ n < w.count/4, rc = -eInval ∧ words = w.words n ∧ w.fault (4*n) = true ∧
      ∀ k < n, w.fault (4*k) = false

theorem Written.access {posted now : List U32} {n : Nat} {l : BypassLoop}
    (h : Written w posted n l now) (hcount : w.count &&& 3 = 0) (hsmall : w.count < 2^31) :
    (∃ l' now', bypassAccess w l now = (.inl l',now') ∧ n < w.count/4 ∧
      Written w posted (n+1) l' now') ∨
    ∃ rc words, bypassAccess w l now = (.inr rc,posted ++ words) ∧ w.Ended rc words := by
  have hmod : w.count % 4 = 0 := by
    have hmask : w.count &&& 3 = w.count % 2^2 := Nat.and_two_pow_sub_one_eq_mod w.count 2
    rw [hmask] at hcount
    omega
  unfold bypassAccess
  rw [h.offset]
  by_cases hmore : 4*n < w.count
  · rw [if_pos hmore]
    cases hfault : w.fault (4*n) with
    | true =>
      rw [if_pos rfl, h.words]
      exact .inr ⟨_,_,rfl,.inr ⟨n,by omega,rfl,rfl,hfault,h.clean⟩⟩
    | false =>
      rw [if_neg (by decide)]
      have hoff : (4*n+4) % 2^64 = 4*(n+1) := by omega
      dsimp only
      rw [hoff]
      refine .inl ⟨_,_,rfl,by omega,⟨rfl,?_,by omega,?_,?_⟩⟩
      · rw [Int.bmod_eq_of_le] <;> omega
      · rw [h.words, words_succ, List.append_assoc]
      · intro k hk
        by_cases hkn : k = n
        · rw [hkn]
          exact hfault
        · exact h.clean k (by omega)
  · rw [if_neg hmore, h.words]
    have hroom := h.room
    have hall : 4*n = w.count := by omega
    have hn : w.count/4 = n := by omega
    refine .inr ⟨_,_,rfl,.inl ⟨?_,by rw [hn],by rw [hn]; exact h.clean⟩⟩
    rw [h.rc, hall]

theorem BypassWrite.Ended.unique {rc rc' : Int} {ws ws' : List U32} (h : w.Ended rc ws)
    (h' : w.Ended rc' ws') : rc = rc' ∧ ws = ws' := by
  rcases h with ⟨rfl,rfl,hclean⟩ | ⟨n,hn,rfl,rfl,hfault,hbefore⟩
  · rcases h' with ⟨rfl,rfl,-⟩ | ⟨n',hn',-,-,hfault',-⟩
    · exact ⟨rfl,rfl⟩
    · rw [hclean n' hn'] at hfault'
      cases hfault'
  · rcases h' with ⟨-,-,hclean'⟩ | ⟨n',hn',rfl,rfl,hfault',hbefore'⟩
    · rw [hclean' n hn] at hfault
      cases hfault
    · have heq : n = n' := by
        rcases Nat.lt_trichotomy n n' with hlt | heq | hlt
        · rw [hbefore' n hlt] at hfault
          cases hfault
        · exact heq
        · rw [hbefore n' hlt] at hfault'
          cases hfault'
      exact ⟨rfl,by rw [heq]⟩

theorem written_start (w : BypassWrite) (posted : List U32) : Written w posted 0 ⟨0,0⟩ posted :=
  ⟨rfl,rfl,Nat.zero_le _,by simp [BypassWrite.words],fun k hk => absurd hk (Nat.not_lt_zero k)⟩

theorem bypassRounds_ended (hcount : w.count &&& 3 = 0) (hsmall : w.count < 2^31) {fuel n : Nat}
    {l : BypassLoop} {now : List U32} (h : Written w [] n l now) (hfuel : w.count/4 < fuel+n) :
    w.Ended (bypassRounds w fuel l now).1 (bypassRounds w fuel l now).2 := by
  induction fuel generalizing n l now with
  | zero =>
    have hroom := h.room
    omega
  | succ fuel ih =>
    unfold bypassRounds
    rcases h.access hcount hsmall with ⟨l',now',hacc,hn,hnext⟩ | ⟨rc,words,hacc,hend⟩
    · rw [hacc]
      exact ih hnext (by omega)
    · rw [hacc]
      exact hend

theorem charBypassWrite_ended (h : w.accepted = true) (hsmall : w.count < 2^31) :
    w.Ended (charBypassWrite w).1 (charBypassWrite w).2 := by
  simp only [BypassWrite.accepted, Bool.and_eq_true, beq_iff_eq, Bool.not_eq_true'] at h
  obtain ⟨⟨hcount,hnull⟩,hbar⟩ := h
  unfold charBypassWrite
  rw [if_neg (not_not.mpr hcount), hnull, hbar, if_neg (by decide), if_neg (by decide)]
  exact bypassRounds_ended hcount hsmall (written_start w []) (by omega)

theorem partway_written (hcount : w.count &&& 3 = 0) (hsmall : w.count < 2^31)
    {posted now : List U32} {l : BypassLoop} (h : Partway bypassProgram w posted l now) :
    ∃ n, Written w posted n l now := by
  induction h with
  | start => exact ⟨0,written_start w posted⟩
  | @access l l' r' r'' _ hacc ih =>
    obtain ⟨n,hn⟩ := ih
    have hacc : bypassAccess w l r' = (.inl l',r'') := hacc
    rcases hn.access hcount hsmall with ⟨l₁,now₁,heq,-,hnext⟩ | ⟨rc,words,heq,-⟩
    · rw [hacc] at heq
      cases heq
      exact ⟨n+1,hnext⟩
    · rw [hacc] at heq
      cases heq

theorem Written.prefix {posted now ws : List U32} {n : Nat} {l : BypassLoop} {rc : Int}
    (h : Written w posted n l now) (hend : w.Ended rc ws) : w.words n <+: ws := by
  have hroom := h.room
  have hmono : ∀ {m}, n ≤ m → w.words n <+: w.words m := by
    intro m hm
    obtain ⟨k,rfl⟩ := Nat.exists_eq_add_of_le hm
    rw [BypassWrite.words, BypassWrite.words, List.range_add, List.map_append]
    exact List.prefix_append _ _
  rcases hend with ⟨-,rfl,-⟩ | ⟨m,-,-,rfl,hfault,-⟩
  · exact hmono (by omega)
  · refine hmono (Nat.le_of_not_lt fun hlt => ?_)
    rw [h.clean m hlt] at hfault
    cases hfault

theorem performs_charBypassWrite (h : w.accepted = true) (hsmall : w.count < 2^31)
    {posted now : List U32} {rc : Int} (hp : Performs bypassProgram w posted rc now) :
    rc = (charBypassWrite w).1 ∧ now = posted ++ (charBypassWrite w).2 := by
  have hended := charBypassWrite_ended h hsmall
  simp only [BypassWrite.accepted, Bool.and_eq_true, beq_iff_eq] at h
  obtain ⟨l,m,hpart,hacc⟩ := hp
  obtain ⟨n,hn⟩ := partway_written h.1.1 hsmall hpart
  have hacc : bypassAccess w l m = (.inr rc,now) := hacc
  rcases hn.access h.1.1 hsmall with ⟨l₁,now₁,heq,-⟩ | ⟨rc',words,heq,hend⟩
  · rw [hacc] at heq
    cases heq
  · rw [hacc] at heq
    cases heq
    obtain ⟨hrc,hwords⟩ := hend.unique hended
    exact ⟨hrc,by rw [hwords]⟩

end call

/-- What has been written to the bypass BAR, with the offset each word went to; who holds
the lock of an engine, and the calls that have returned. -/
structure BypassSystem where
  writes : List (Nat × U32)
  holder : EngineSlot → Option (BypassWrite × BypassLoop)
  returned : EngineSlot → List (BypassWrite × Int)

inductive BypassOp where
  -- a call that has passed the checks takes the lock
  | enter (e : EngineSlot) (w : BypassWrite)
  | round (e : EngineSlot)

/-- `bypass_addr += engine->bypass_offset`, in words. -/
def bypassAddr (lro : IrqLines) (e : EngineSlot) : Nat :=
  4*(((lro.engine e).getD 0)*bypassModeSpacing)

def bypassNext (lro : IrqLines) (s : BypassSystem) : BypassOp → Option BypassSystem
  | .enter e w =>
    if (lro.engine e).isSome && w.accepted then match s.holder e with
      | none => some { s with holder := Function.update s.holder e (some (w,⟨0,0⟩)) }
      | some _ => none
    else none
  | .round e => match s.holder e with
    | none => none
    | some (w,l) => match bypassAccess w l [] with
      | (.inl l',posted) => some { s with
          writes := s.writes ++ posted.map (bypassAddr lro e,·)
          holder := Function.update s.holder e (some (w,l')) }
      | (.inr rc,posted) => some
        { writes := s.writes ++ posted.map (bypassAddr lro e,·)
          holder := Function.update s.holder e none
          returned := Function.update s.returned e (s.returned e ++ [(w,rc)]) }

section system

variable {lro : IrqLines}

def portWords (lro : IrqLines) (writes : List (Nat × U32)) (e : EngineSlot) : List U32 :=
  if (lro.engine e).isSome then
    (writes.filter fun x => x.1 = bypassAddr lro e).map Prod.snd
  else []

def BypassSystem.locked (lro : IrqLines) (s : BypassSystem) :
    Locked EngineSlot BypassWrite BypassLoop (List U32) Int :=
  ⟨portWords lro s.writes,s.holder,s.returned⟩

def BypassOp.lockOp : BypassOp → LockOp EngineSlot BypassWrite
  | .enter e w => .enter e w
  | .round e => .access e

theorem bypassAddr_injective {e f : EngineSlot} (he : (lro.engine e).isSome = true)
    (hf : (lro.engine f).isSome = true) (h : bypassAddr lro e = bypassAddr lro f) : e = f := by
  obtain ⟨n,hn⟩ := Option.isSome_iff_exists.mp he
  obtain ⟨m,hm⟩ := Option.isSome_iff_exists.mp hf
  simp only [bypassAddr, hn, hm, Option.getD_some, bypassModeSpacing] at h
  have heq : n = m := by omega
  subst heq
  exact lro.apart e f n hn hm

theorem portWords_append {e : EngineSlot} (he : (lro.engine e).isSome = true)
    (writes : List (Nat × U32)) (posted : List U32) :
    portWords lro (writes ++ posted.map (bypassAddr lro e,·)) =
      Function.update (portWords lro writes) e (portWords lro writes e ++ posted) := by
  funext f
  unfold portWords
  by_cases hfe : f = e
  · subst hfe
    have hall : (posted.map (bypassAddr lro f,·)).filter (fun x => x.1 = bypassAddr lro f) =
        posted.map (bypassAddr lro f,·) := List.filter_eq_self.mpr (by simp)
    rw [if_pos he, Function.update_self, if_pos he, List.filter_append, hall, List.map_append,
      List.map_map]
    simp [Function.comp_def]
  · rw [Function.update_of_ne hfe]
    by_cases hf : (lro.engine f).isSome = true
    · have hne : bypassAddr lro e ≠ bypassAddr lro f := fun heq =>
        hfe (bypassAddr_injective he hf heq).symm
      have hnil : (posted.map (bypassAddr lro e,·)).filter (fun x => x.1 = bypassAddr lro f) = [] :=
        List.filter_eq_nil_iff.mpr (by simp [hne])
      rw [if_pos hf, if_pos hf, List.filter_append, hnil, List.append_nil]
    · rw [if_neg hf, if_neg hf]

theorem bypassAccess_behind (w : BypassWrite) (l : BypassLoop) (posted : List U32) :
    bypassAccess w l posted = ((bypassAccess w l []).1,posted ++ (bypassAccess w l []).2) := by
  unfold bypassAccess
  dsimp only
  split_ifs <;> simp

def BypassWrite.Sound (w : BypassWrite) : Prop := w.accepted = true ∧ w.count < 2^31

def BypassOp.Limited (_ : BypassSystem) : BypassOp → Prop
  | .enter _ w => w.count < 2^31
  | .round _ => True

instance (s : BypassSystem) (op : BypassOp) : Decidable (op.Limited s) := by
  cases op <;> unfold BypassOp.Limited <;> infer_instance

def BypassSystem.Accepted (lro : IrqLines) (s : BypassSystem) : Prop :=
  (∀ e c, s.holder e = some c → (lro.engine e).isSome = true ∧ c.1.Sound) ∧
    ∀ e, ∀ c ∈ s.returned e, c.1.Sound

theorem bypassNext_locked {s s' : BypassSystem} {op : BypassOp} (h : s.Accepted lro)
    (hok : op.Limited s) (hs : stepOf (bypassNext lro) s op s') : s'.Accepted lro ∧
      stepOf (lockNext bypassProgram) (s.locked lro) op.lockOp (s'.locked lro) := by
  cases op with
  | enter e w =>
    simp only [stepOf, bypassNext, Option.ite_none_right_eq_some, Bool.and_eq_true] at hs
    obtain ⟨⟨he,hw⟩,hs⟩ := hs
    cases hholder : s.holder e with
    | some c =>
      rw [hholder] at hs
      cases hs
    | none =>
      rw [hholder] at hs
      cases hs
      refine ⟨⟨fun f c hc => ?_,h.2⟩,?_⟩
      · by_cases hf : f = e
        · subst hf
          simp only [Function.update_self, Option.some.injEq] at hc
          exact ⟨he,hc ▸ ⟨hw,hok⟩⟩
        · simp only [Function.update_of_ne hf] at hc
          exact h.1 f c hc
      · simp only [stepOf, lockNext, BypassOp.lockOp, BypassSystem.locked, hholder]
        rfl
  | round e =>
    simp only [stepOf, bypassNext] at hs
    cases hholder : s.holder e with
    | none =>
      rw [hholder] at hs
      cases hs
    | some c =>
      obtain ⟨w,l⟩ := c
      obtain ⟨he,hw⟩ := h.1 e _ hholder
      have hbehind := bypassAccess_behind w l (portWords lro s.writes e)
      rw [hholder] at hs
      simp only [stepOf, lockNext, BypassOp.lockOp, BypassSystem.locked, hholder]
      change _ ∧ some (accessNext _ e w (bypassAccess w l (portWords lro s.writes e))) = _
      rw [hbehind]
      cases hacc : bypassAccess w l [] with
      | mk r posted =>
        simp only [hacc] at hs
        cases r with
        | inl l' =>
          cases hs
          refine ⟨⟨fun f c hc => ?_,h.2⟩,?_⟩
          · by_cases hf : f = e
            · subst hf
              simp only [Function.update_self, Option.some.injEq] at hc
              exact ⟨he,hc ▸ hw⟩
            · simp only [Function.update_of_ne hf] at hc
              exact h.1 f c hc
          · rw [portWords_append he]
            rfl
        | inr rc =>
          cases hs
          refine ⟨⟨fun f c hc => ?_,fun f c hc => ?_⟩,?_⟩
          · by_cases hf : f = e
            · subst hf
              simp only [Function.update_self] at hc
              cases hc
            · simp only [Function.update_of_ne hf] at hc
              exact h.1 f c hc
          · by_cases hf : f = e
            · subst hf
              simp only [Function.update_self, List.mem_append, List.mem_singleton] at hc
              rcases hc with hc | rfl
              · exact h.2 f c hc
              · exact hw
            · simp only [Function.update_of_ne hf] at hc
              exact h.2 f c hc
          · rw [portWords_append he]
            rfl

theorem serial_charBypassWrite {cs : List (BypassWrite × Int)} {now : List U32}
    (h : ∀ c ∈ cs, c.1.Sound) (hs : Serial bypassProgram [] cs now) :
    now = cs.flatMap (fun c => (charBypassWrite c.1).2) ∧
      ∀ c ∈ cs, c.2 = (charBypassWrite c.1).1 := by
  induction hs with
  | nil => simp
  | @snoc cs w rc r r' _ hp ih =>
    obtain ⟨hwords,hrcs⟩ := ih fun c hc => h c (by simp [hc])
    obtain ⟨hacc,hsmall⟩ := h (w,rc) (by simp)
    obtain ⟨hrc,hnow⟩ := performs_charBypassWrite hacc hsmall hp
    refine ⟨by rw [hnow, hwords]; simp,fun c hc => ?_⟩
    rcases List.mem_append.mp hc with hc | hc
    · exact hrcs c hc
    · rw [List.mem_singleton.mp hc]
      exact hrc

def BypassSystem.start : BypassSystem := ⟨[],fun _ => none,fun _ => []⟩

/-- Whatever goes on at the other engines, at the place of an engine the calls on its node
are one after the other, each whole: the words, the return values, and of the call that
holds the lock what it has written so far. -/
theorem run_bypassWrites {ops : List BypassOp} {s : BypassSystem}
    (r : Run (stepOf (bypassNext lro)) (fun s op => op.Limited s) .start ops s) {e : EngineSlot}
    (he : (lro.engine e).isSome = true) :
    (∀ c ∈ s.returned e, c.2 = (charBypassWrite c.1).1) ∧
      ∃ now, ((s.writes.filter fun x => x.1 = bypassAddr lro e).map Prod.snd) =
        (s.returned e).flatMap (fun c => (charBypassWrite c.1).2) ++ now ∧
        (s.holder e = none → now = []) ∧
        ∀ w l, s.holder e = some (w,l) → now <+: (charBypassWrite w).2 := by
  have hstart : BypassSystem.start.Accepted lro := by
    refine ⟨fun f c hc => ?_,fun f c hc => ?_⟩
    · cases hc
    · cases hc
  have hsim : ∀ s op s', s.Accepted lro → op.Limited s → stepOf (bypassNext lro) s op s' →
      s'.Accepted lro ∧ (some op.lockOp = none → s'.locked lro = s.locked lro) ∧
      ∀ k, some op.lockOp = some k → anyStep (s.locked lro) k ∧
        stepOf (lockNext bypassProgram) (s.locked lro) k (s'.locked lro) := by
    intro s op s' h hok hs
    obtain ⟨h',hstep⟩ := bypassNext_locked h hok hs
    refine ⟨h',by simp,?_⟩
    rintro _ ⟨⟩
    exact ⟨trivial,hstep⟩
  obtain ⟨hacc,rl⟩ := r.simulate _ _ _ hstart hsim
  have hempty : BypassSystem.start.locked lro = unlocked fun _ => [] := by
    have hnil : portWords lro [] = fun _ => [] := funext fun f => by simp [portWords]
    rw [BypassSystem.locked, BypassSystem.start, hnil]
    rfl
  rw [hempty] at rl
  obtain ⟨before,hserial,hfree,hheld⟩ := run_inOrder rl e
  obtain ⟨hwords,hrcs⟩ := serial_charBypassWrite (hacc.2 e) hserial
  have hport : (s.locked lro).resource e =
      (s.writes.filter fun x => x.1 = bypassAddr lro e).map Prod.snd := if_pos he
  rw [hport] at hfree hheld
  refine ⟨hrcs,?_⟩
  cases hholder : s.holder e with
  | none => exact ⟨[],by rw [hfree hholder, hwords, List.append_nil],fun _ => rfl,by simp⟩
  | some c =>
    obtain ⟨w,l⟩ := c
    obtain ⟨-,haccepted,hsmall⟩ := hacc.1 e _ hholder
    have hcount : w.count &&& 3 = 0 := by
      simp only [BypassWrite.accepted, Bool.and_eq_true, beq_iff_eq] at haccepted
      exact haccepted.1.1
    obtain ⟨n,hn⟩ := partway_written hcount hsmall (hheld w l hholder)
    refine ⟨w.words n,by rw [hn.words, hwords],by simp,?_⟩
    rintro _ _ ⟨⟩
    exact hn.prefix (charBypassWrite_ended haccepted hsmall)

def twoWriters (e f : EngineSlot) (v w : BypassWrite) : List BypassOp :=
  [.enter e v,.enter f w,.round e,.round f,.round f,.round e,.round f,.round e]

def eightBytes (user : Nat → Byte) : BypassWrite := ⟨false,true,8,user,fun _ => false⟩

theorem run_bypassWrites_twoWriters :
    let s := replay (bypassNext twoEngines) .start
      (twoWriters ⟨0,false⟩ ⟨1,false⟩ (eightBytes fun _ => 1) (eightBytes fun _ => 2))
    s.returned ⟨0,false⟩ ≠ [] ∧ ∀ c ∈ s.returned ⟨0,false⟩, c.2 = (charBypassWrite c.1).1 := by
  have r : Run (stepOf (bypassNext twoEngines)) (fun s op => op.Limited s) .start
      (twoWriters ⟨0,false⟩ ⟨1,false⟩ (eightBytes fun _ => 1) (eightBytes fun _ => 2))
      (replay (bypassNext twoEngines) .start
        (twoWriters ⟨0,false⟩ ⟨1,false⟩ (eightBytes fun _ => 1) (eightBytes fun _ => 2))) :=
    replay_ok (by decide +kernel)
  exact ⟨by decide +kernel,(run_bypassWrites r (e := ⟨0,false⟩) (by decide)).1⟩

end system

def XdmaDesc.words (desc : XdmaDesc) : List U32 :=
  [desc.control,desc.bytes,desc.srcAddrLo,desc.srcAddrHi,desc.dstAddrLo,desc.dstAddrHi,desc.nextLo,
    desc.nextHi]

theorem wordBytes_join (x : U32) : (x.extractLsb' 24 8 ++ x.extractLsb' 16 8 ++ x.extractLsb' 8 8 ++
    x.extractLsb' 0 8 : U32) = x := by
  iterate 3 rw [BitVec.extractLsb'_append_extractLsb'_eq_extractLsb' (by rfl)]
  exact BitVec.extractLsb'_eq_self

theorem words_ofBytes {w : BypassWrite} {ws : List U32}
    (h : ∀ o b, (ws.flatMap wordBytes)[o]? = some b → w.user o = b) : w.words ws.length = ws := by
  induction ws using List.reverseRecOn with
  | nil => rfl
  | append_singleton ws x ih =>
    have hlen : ∀ us : List U32, (us.flatMap wordBytes).length = 4*us.length := by
      intro us
      simp [wordBytes, Nat.mul_comm]
    have hfront := ih fun o b hb => h o b (by
      have hlt := (List.getElem?_eq_some_iff.mp hb).1
      rw [List.flatMap_append, List.getElem?_append_left hlt]
      exact hb)
    have hlast : ∀ j < 4, w.user (4*ws.length+j) = x.extractLsb' (8*j) 8 := by
      intro j hj
      refine h _ _ ?_
      rw [List.flatMap_append, List.getElem?_append_right (by rw [hlen]; omega), hlen,
        Nat.add_sub_cancel_left]
      simp [wordBytes, hj]
    rw [List.length_append, List.length_singleton, words_succ, hfront, BypassWrite.word,
      hlast 3 (by decide), hlast 2 (by decide), hlast 1 (by decide)]
    have hzero := hlast 0 (by decide)
    rw [Nat.add_zero] at hzero
    rw [hzero]
    exact congrArg (ws ++ [·]) (wordBytes_join x)

/-- Descriptors that a node has given are written back as they were: the words, in the
order of the queue. -/
theorem charBypassWrite_readBack {left : Nat → Nat} {queue : List XdmaTransfer} {r : BypassRead}
    {w : BypassWrite} (hq : ∀ x ∈ queue, 1 ≤ x.descNum) (hr : r.count < 2^31)
    (hread : 0 ≤ (charBypassRead left queue r).1)
    (hbuf : ∀ o b, (charBypassRead left queue r).2 o = some b → w.user o = b)
    (hcount : w.count = (charBypassRead left queue r).1.toNat)
    (hw : w.bufNull = false ∧ w.bypassBar = true) (hfault : ∀ o, w.fault o = false) :
    charBypassWrite w = ((w.count : Int),(queuedDescs queue).flatMap XdmaDesc.words) := by
  obtain ⟨hiff,hsize,hbehind⟩ := charBypassRead_copies left hq (Nat.lt_trans hr (by decide))
  have hholds := (hiff.mp hread).2
  have hbytes : (queuedDescs queue).flatMap XdmaDesc.memory =
      ((queuedDescs queue).flatMap XdmaDesc.words).flatMap wordBytes := by
    rw [List.flatMap_assoc]
    rfl
  have hlen : ((queuedDescs queue).flatMap XdmaDesc.words).length = 8*(queuedDescs queue).length := by
    simp [XdmaDesc.words, Nat.mul_comm]
  have hmemory := descs_memory_length (queuedDescs queue)
  have hn : w.count = 32*(queuedDescs queue).length := by
    rw [hcount, hsize hread, Int.toNat_natCast]
  have hsmall : w.count < 2^31 := by
    by_contra hlarge
    have hlt : r.count < ((queuedDescs queue).flatMap XdmaDesc.memory).length := by
      rw [hmemory, xdmaDescSize]
      omega
    have hnone := hbehind r.count (Nat.le_refl _)
    rw [hholds, List.getElem?_eq_getElem hlt] at hnone
    cases hnone
  have hmask : w.count &&& 3 = 0 := by
    have hmod : w.count &&& 3 = w.count % 2^2 := Nat.and_two_pow_sub_one_eq_mod w.count 2
    omega
  have haccepted : w.accepted = true := by
    simp [BypassWrite.accepted, hmask, hw]
  have hwords : w.words ((queuedDescs queue).flatMap XdmaDesc.words).length =
      (queuedDescs queue).flatMap XdmaDesc.words :=
    words_ofBytes fun o b hb => hbuf o b (by rw [hholds o, hbytes, hb])
  rcases charBypassWrite_ended haccepted hsmall with ⟨hrc,hposted,-⟩ | ⟨n,-,-,-,hbad,-⟩
  · have hquarter : w.count/4 = ((queuedDescs queue).flatMap XdmaDesc.words).length := by omega
    rw [hquarter, hwords] at hposted
    exact Prod.ext hrc hposted
  · rw [hfault] at hbad
    cases hbad

theorem charBypassWrite_readBack_two :
    charBypassWrite ⟨false,true,96,fun o => ((charBypassRead (fun _ => 0) twoQueued
        ⟨false,true,96⟩).2 o).getD 0,fun _ => false⟩ =
      (96,(queuedDescs twoQueued).flatMap XdmaDesc.words) := by
  refine @charBypassWrite_readBack (fun _ => 0) twoQueued ⟨false,true,96⟩
    ⟨false,true,96,_,fun _ => false⟩ (by simp [twoQueued]) (by decide) (by decide +kernel)
    (fun o b hb => ?_) (by decide +kernel) ⟨rfl,rfl⟩ (fun _ => rfl)
  dsimp only
  rw [hb]
  rfl

end DmaCamera
