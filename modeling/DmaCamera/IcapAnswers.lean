import DmaCamera.Icap
set_option autoImplicit false

namespace DmaCamera
open Calls Readers

/-! What the card answers to the words it is offered, by the values of its registers alone, and
that the download goes by these answers. -/

/-- How many words were offered when the card stopped taking them, at what time, and whether it took
them all. -/
structure Answer where
  words : Nat
  time : Nat
  all : Bool
  deriving DecidableEq, Repr

def BitEnv.polls (env : BitEnv) (offset : Nat) (ready : U32 → Bool) : Nat → Nat → Bool × Nat
  | 0, time => (false,time)
  | n+1, time =>
    if ready (env.reg time offset) = true then (true,time+1) else env.polls offset ready n (time+1)

def crReady (value : U32) : Bool := value &&& 1 == 0
def srReady (value : U32) : Bool := value &&& 5 != 0

def BitEnv.rounds (env : BitEnv) : Nat → Nat → Nat → Answer
  | 0, time, _ => ⟨0,time,true⟩
  | fuel+1, time, n =>
    if n = 0 then ⟨0,time,true⟩
    else if (env.reg time xhwicapWfv).toInt ≤ 0 then ⟨0,time+1,false⟩
    else
      let m := min (env.reg time xhwicapWfv).toNat n
      let polled := env.polls xhwicapCr crReady 10 (time+1)
      if polled.1 = true then
        let rest := env.rounds fuel polled.2 (n-m)
        ⟨m+rest.words,rest.time,rest.all⟩
      else ⟨m,polled.2,false⟩

def BitEnv.takes (env : BitEnv) : List Nat → Nat → Answer
  | [], time => ⟨0,time,true⟩
  | bytes :: rest, time =>
    let first := env.rounds (bytes/4) time (bytes/4)
    if first.all = true then
      let others := env.takes rest first.time
      ⟨first.words+others.words,others.time,others.all⟩
    else first

def BitDev.fifo (s : BitDev) : List U32 :=
  s.writes.filterMap fun w => if w.1 = xhwicapWf then some w.2 else none

/-- A part of a call that only reads registers of the user BAR, other than the status, and writes them. -/
structure Quiet (s t : BitDev) : Prop where
  rest : t = { s with reads := t.reads, writes := t.writes, time := t.time }
  reads : ∃ rs, t.reads = s.reads ++ rs ∧ ∀ r ∈ rs, r.1 ≠ xhwicapSr

variable {env : BitEnv} {s t u : BitDev}

theorem Quiet.refl (s : BitDev) : Quiet s s :=
  ⟨rfl,[],(List.append_nil _).symm,by simp⟩

theorem Quiet.trans (h : Quiet s t) (h' : Quiet t u) : Quiet s u := by
  obtain ⟨hrest,rs,hrs,hne⟩ := h
  obtain ⟨hrest',rs',hrs',hne'⟩ := h'
  refine ⟨?_,rs ++ rs',?_,?_⟩
  · rw [hrest', hrest]
  · rw [hrs', hrs, List.append_assoc]
  · intro r hr
    rcases List.mem_append.mp hr with hr | hr
    · exact hne r hr
    · exact hne' r hr

def BitDev.readAt (s : BitDev) (env : BitEnv) (offset : Nat) : BitDev :=
  { s with time := s.time+1, reads := s.reads ++ [(offset,env.reg s.time offset)] }

def BitDev.writeAt (s : BitDev) (offset : Nat) (value : U32) : BitDev :=
  { s with writes := s.writes ++ [(offset,value)] }

@[simp] theorem ends_readRegister {offset : Nat} {Q : U32 → BitDev → Prop}
    {D : BitFault → BitDev → Prop} :
    Ends (readRegister env offset) s Q D ↔ Q (env.reg s.time offset) (s.readAt env offset) := Iff.rfl

@[simp] theorem ends_writeRegister {offset : Nat} {value : U32} {Q : Unit → BitDev → Prop}
    {D : BitFault → BitDev → Prop} :
    Ends (writeRegister value offset) s Q D ↔ Q () (s.writeAt offset value) := Iff.rfl

@[simp] theorem readAt_fifo (offset : Nat) : (s.readAt env offset).fifo = s.fifo := rfl

theorem writeAt_fifo (offset : Nat) (value : U32) : (s.writeAt offset value).fifo =
    s.fifo ++ if offset = xhwicapWf then [value] else [] := by
  rw [BitDev.fifo, BitDev.writeAt, List.filterMap_append, BitDev.fifo]
  split <;> simp [*]

theorem Quiet.readAt {offset : Nat} (h : offset ≠ xhwicapSr) : Quiet s (s.readAt env offset) :=
  ⟨rfl,_,rfl,by simpa using h⟩

theorem Quiet.writeAt (offset : Nat) (value : U32) : Quiet s (s.writeAt offset value) :=
  ⟨rfl,[],(List.append_nil _).symm,by simp⟩

theorem pollRegister_ends (offset : Nat) (ready : U32 → Bool) (n : Nat) :
    Ends (pollRegister env offset ready n) s
      (fun b t => (b,t.time) = env.polls offset ready n s.time ∧ t.writes = s.writes ∧
        t = { s with reads := t.reads, writes := t.writes, time := t.time } ∧
        ∃ rs, t.reads = s.reads ++ rs ∧ (∀ r ∈ rs, r.1 = offset) ∧
          (b = true ↔ ∃ r ∈ rs, ready r.2 = true))
      fun _ _ => False := by
  induction n generalizing s with
  | zero => exact ⟨rfl,rfl,rfl,[],(List.append_nil _).symm,by simp,by simp⟩
  | succ n ih =>
    rw [pollRegister, ends_bind, ends_readRegister, BitEnv.polls, ends_ite]
    split
    · rename_i hready
      exact ⟨rfl,rfl,rfl,_,rfl,by simp,by simp [hready]⟩
    · rename_i hready
      refine (@ih (s.readAt env offset)).mono (fun b t h => ?_) fun _ _ h => h
      obtain ⟨hpolls,hwrites,hrest,rs,hrs,hoff,hiff⟩ := h
      refine ⟨hpolls,hwrites,?_,(offset,env.reg s.time offset) :: rs,?_,?_,?_⟩
      · rw [hrest]
        rfl
      · rw [hrs]
        simp [BitDev.readAt]
      · intro r hr
        rcases List.mem_cons.mp hr with rfl | hr
        · rfl
        · exact hoff r hr
      · rw [hiff]
        simp [hready]

def wordsOf (word : Nat → Option U32) (i n : Nat) : List U32 := (List.range' i n).filterMap word

theorem wordsOf_add (word : Nat → Option U32) (i m n : Nat) :
    wordsOf word i (m+n) = wordsOf word i m ++ wordsOf word (i+m) n := by
  rw [wordsOf, wordsOf, wordsOf, ← List.filterMap_append, List.range'_append_1]

def Lacks (word : Nat → Option U32) (i n : Nat) : Prop := ∃ k < n, word (i+k) = none

theorem lacks_add {word : Nat → Option U32} {i m n : Nat} :
    Lacks word i (m+n) ↔ Lacks word i m ∨ Lacks word (i+m) n := by
  constructor
  · rintro ⟨k,hk,hnone⟩
    by_cases hlt : k < m
    · exact Or.inl ⟨k,hlt,hnone⟩
    · refine Or.inr ⟨k-m,by omega,?_⟩
      rwa [Nat.add_assoc, Nat.add_sub_cancel' (Nat.not_lt.mp hlt)]
  · rintro (⟨k,hk,hnone⟩ | ⟨k,hk,hnone⟩)
    · exact ⟨k,by omega,hnone⟩
    · exact ⟨m+k,by omega,by rwa [← Nat.add_assoc]⟩

/-- A part of a download that offered `n` words. -/
structure Offered (word : Nat → Option U32) (i n : Nat) (s t : BitDev) : Prop where
  quiet : Quiet s t
  fifo : t.fifo = s.fifo ++ wordsOf word i n
  there : ¬ Lacks word i n

structure Lost (word : Nat → Option U32) (i n : Nat) (s : BitDev) (e : BitFault) (t : BitDev) :
    Prop where
  quiet : Quiet s t
  fault : e = .outside
  lacks : Lacks word i n

variable {word : Nat → Option U32} {i : Nat}

theorem Offered.nil (s : BitDev) : Offered word i 0 s s :=
  ⟨Quiet.refl s,(List.append_nil _).symm,fun ⟨_,hk,_⟩ => Nat.not_lt_zero _ hk⟩

theorem Offered.trans {m n : Nat} (h : Offered word i m s t) (h' : Offered word (i+m) n t u) :
    Offered word i (m+n) s u := by
  refine ⟨h.quiet.trans h'.quiet,?_,?_⟩
  · rw [h'.fifo, h.fifo, wordsOf_add, List.append_assoc]
  · rw [lacks_add, not_or]
    exact ⟨h.there,h'.there⟩

theorem Offered.lost {m n : Nat} {e : BitFault} (h : Offered word i m s t)
    (h' : Lost word (i+m) n t e u) : Lost word i (m+n) s e u :=
  ⟨h.quiet.trans h'.quiet,h'.fault,lacks_add.mpr (Or.inr h'.lacks)⟩

theorem Offered.quietly {n : Nat} (h : Offered word i n s t) (hq : Quiet t u) (hf : u.fifo = t.fifo) :
    Offered word i n s u :=
  ⟨h.quiet.trans hq,hf.trans h.fifo,h.there⟩

theorem writeWords_ends (size i : Nat) : Ends (writeWords word size i) s
    (fun _ t => Offered word i size s t ∧ t.time = s.time) (Lost word i size s) := by
  induction size generalizing s i with
  | zero => exact ⟨Offered.nil s,rfl⟩
  | succ size ih =>
    rw [writeWords]
    cases hword : word i with
    | none => exact ⟨Quiet.refl s,rfl,0,Nat.succ_pos size,hword⟩
    | some value =>
      have hfirst : Offered word i 1 s (s.writeAt xhwicapWf value) := by
        refine ⟨Quiet.writeAt _ _,?_,?_⟩
        · rw [writeAt_fifo, if_pos rfl, wordsOf]
          simp [hword]
        · rintro ⟨k,hk,hnone⟩
          obtain rfl : k = 0 := by omega
          rw [Nat.add_zero, hword] at hnone
          cases hnone
      dsimp only
      rw [ends_bind, ends_writeRegister, Nat.add_comm size 1]
      refine (ih (i+1)).mono (fun _ t h => ⟨hfirst.trans h.1,h.2⟩) fun e t h => hfirst.lost h

theorem hwicapWrite_ends (i size : Nat) : Ends (hwicapWrite env word i size) s
    (fun b t => Offered word i size s t ∧ (b,t.time) = env.polls xhwicapCr crReady 10 s.time)
    (Lost word i size s) := by
  rw [hwicapWrite, ends_bind]
  refine (writeWords_ends size i).mono (fun _ t h => ?_) fun _ _ h => h
  rw [ends_bind, ends_writeRegister]
  refine (pollRegister_ends xhwicapCr crReady 10).mono (fun b u h' => ?_) fun _ _ h => h.elim
  obtain ⟨hpolls,hwrites,hrest,rs,hrs,hoff,_⟩ := h'
  have hquiet : Quiet (t.writeAt xhwicapCr 1) u := by
    refine ⟨hrest,rs,hrs,fun r hr => ?_⟩
    rw [hoff r hr]
    decide
  have hfifo : u.fifo = t.fifo := by
    rw [BitDev.fifo, hwrites]
    exact (writeAt_fifo xhwicapCr 1).trans (List.append_nil _)
  refine ⟨h.1.quietly ((Quiet.writeAt xhwicapCr 1).trans hquiet) hfifo,?_⟩
  rw [hpolls, ← h.2]
  rfl

/-- The rounds go by the answers of the card. -/
theorem icapRounds_ends (fuel i n : Nat) : Ends (icapRounds env word fuel i n) s
    (fun b t => Offered word i (env.rounds fuel s.time n).words s t ∧
      t.time = (env.rounds fuel s.time n).time ∧ b = (env.rounds fuel s.time n).all)
    (Lost word i (env.rounds fuel s.time n).words s) := by
  induction fuel generalizing s i n with
  | zero => exact ⟨Offered.nil s,rfl,rfl⟩
  | succ fuel ih =>
    rw [icapRounds, BitEnv.rounds]
    by_cases hzero : n = 0
    · rw [if_pos hzero, if_pos hzero]
      exact ⟨Offered.nil s,rfl,rfl⟩
    rw [if_neg hzero, if_neg hzero, ends_bind, ends_readRegister]
    have hread : Offered word i 0 s (s.readAt env xhwicapWfv) :=
      (Offered.nil s).quietly (Quiet.readAt (by decide)) (readAt_fifo _)
    by_cases hvacant : (env.reg s.time xhwicapWfv).toInt ≤ 0
    · rw [if_pos hvacant, if_pos hvacant]
      exact ⟨hread,rfl,rfl⟩
    rw [if_neg hvacant, if_neg hvacant]
    dsimp only
    generalize min (env.reg s.time xhwicapWfv).toNat n = m
    rw [ends_bind]
    have hwrite := @hwicapWrite_ends env (s.readAt env xhwicapWfv) word i m
    refine hwrite.mono (fun b t h => ?_) fun e t h => ?_
    · obtain ⟨hoffered,hpolls⟩ := h
      have hround : Offered word i m s t := by
        have hboth := hread.trans hoffered
        rwa [Nat.zero_add] at hboth
      have hpolled : env.polls xhwicapCr crReady 10 (s.time+1) = (b,t.time) := hpolls.symm
      rw [hpolled, ends_ite]
      split
      · exact (ih (i+m) (n-m)).mono (fun b u h => ⟨hround.trans h.1,h.2⟩) fun e u h => hround.lost h
      · exact ⟨hround,rfl,rfl⟩
    · have hlost : Lost word i m s e t := by
        have hboth := hread.lost (n := m) h
        rwa [Nat.zero_add] at hboth
      split
      · exact ⟨hlost.quiet,hlost.fault,lacks_add.mpr (Or.inl hlost.lacks)⟩
      · exact hlost

/-- In a full number of rounds the card takes all words, or says that it does not. -/
theorem rounds_words {fuel n time : Nat} (hfuel : n ≤ fuel) (h : (env.rounds fuel time n).all = true) :
    (env.rounds fuel time n).words = n := by
  induction fuel generalizing time n with
  | zero =>
    obtain rfl : n = 0 := by omega
    rfl
  | succ fuel ih =>
    rw [BitEnv.rounds] at h ⊢
    by_cases hzero : n = 0
    · rw [if_pos hzero, hzero]
    rw [if_neg hzero] at h ⊢
    by_cases hvacant : (env.reg time xhwicapWfv).toInt ≤ 0
    · rw [if_pos hvacant] at h
      cases h
    rw [if_neg hvacant] at h ⊢
    have hpos : 0 < (env.reg time xhwicapWfv).toNat := by
      rw [Nat.pos_iff_ne_zero]
      intro h0
      rw [BitVec.toInt_eq_toNat_cond, h0] at hvacant
      exact hvacant (by decide)
    dsimp only at h ⊢
    split at h
    · rename_i hpolled
      rw [if_pos hpolled]
      dsimp only at h ⊢
      rw [ih (by omega) h]
      omega
    · cases h

/-- The chunks are pieces of one stream, as far as they are copied. -/
def Pieces (chunk : Nat → Option (Nat → Option U32)) (copied : Nat → Bool)
    (stream : Nat → Option U32) : Prop :=
  ∀ c, chunk c = if copied c = true then some (fun i => stream (256*c+i)) else none

def copiedChunks (copied : Nat → Bool) : Nat → List Nat → List Nat
  | _, [] => []
  | c, bytes :: rest => if copied c = true then bytes :: copiedChunks copied (c+1) rest else []

def FullChunks : List Nat → Prop
  | [] => True
  | bytes :: rest => (rest = [] ∨ bytes = 1024) ∧ FullChunks rest

theorem Offered.congr_word {word' : Nat → Option U32} {i' n : Nat} (h : Offered word i n s t)
    (hw : ∀ k, word (i+k) = word' (i'+k)) : Offered word' i' n s t := by
  have hlacks : Lacks word' i' n ↔ Lacks word i n := by simp only [Lacks, hw]
  refine ⟨h.quiet,?_,by rw [hlacks]; exact h.there⟩
  rw [h.fifo, wordsOf, wordsOf, List.range'_eq_map_range, List.range'_eq_map_range,
    List.filterMap_map, List.filterMap_map]
  congr 2
  funext k
  exact hw k

theorem Lost.congr_word {word' : Nat → Option U32} {i' n : Nat} {e : BitFault}
    (h : Lost word i n s e t) (hw : ∀ k, word (i+k) = word' (i'+k)) : Lost word' i' n s e t := by
  refine ⟨h.quiet,h.fault,?_⟩
  obtain ⟨k,hk,hnone⟩ := h.lacks
  exact ⟨k,hk,by rwa [← hw]⟩

def endOf (copied : Nat → Bool) (c : Nat) (chunks : List Nat) (all : Bool) : BodyEnd :=
  if all = false then .refused
  else if copiedChunks copied c chunks = chunks then .done else .fault

theorem icapBody_ends {chunk : Nat → Option (Nat → Option U32)} {copied : Nat → Bool}
    {stream : Nat → Option U32} (hpieces : Pieces chunk copied stream) (c : Nat)
    (chunks : List Nat) (hfull : FullChunks chunks) :
    Ends (icapBody env chunk c chunks) s
      (fun bodyEnd t =>
        Offered stream (256*c) (env.takes (copiedChunks copied c chunks) s.time).words s t ∧
        t.time = (env.takes (copiedChunks copied c chunks) s.time).time ∧
        bodyEnd = endOf copied c chunks (env.takes (copiedChunks copied c chunks) s.time).all)
      (Lost stream (256*c) (env.takes (copiedChunks copied c chunks) s.time).words s) := by
  induction chunks generalizing s c with
  | nil => exact ⟨Offered.nil s,rfl,rfl⟩
  | cons bytes rest ih =>
    rw [icapBody, hpieces c, copiedChunks]
    by_cases hcopied : copied c = true
    · rw [if_pos hcopied, if_pos hcopied, BitEnv.takes]
      dsimp only
      rw [ends_bind, bitstreamIcapHelper]
      have hword (k : Nat) : stream (256*c+(0+k)) = stream (256*c+k) := by rw [Nat.zero_add]
      refine (icapRounds_ends (bytes/4) 0 (bytes/4)).mono (fun b t h => ?_) fun e t h => ?_
      · obtain ⟨hoffered,htime,rfl⟩ := h
        replace hoffered := hoffered.congr_word hword
        rw [ends_ite]
        split
        · rename_i hall
          have hwords := rounds_words (Nat.le_refl _) hall
          have hend : endOf copied c (bytes :: rest) = endOf copied (c+1) rest := by
            funext all
            rw [endOf, endOf, copiedChunks, if_pos hcopied]
            simp
          have hrest := @ih t (c+1) hfull.2
          rw [htime] at hrest
          rw [hend]
          -- the chunks behind a full one begin where it ends, and behind one that is not full is none
          have hnext : rest = [] ∨ 256*(c+1) = 256*c+(env.rounds (bytes/4) s.time (bytes/4)).words := by
            rcases hfull.1 with hnil | hbytes
            · exact Or.inl hnil
            · rw [hwords, hbytes]
              exact Or.inr rfl
          rcases hnext with rfl | hnext
          · refine ⟨?_,htime,rfl⟩
            exact hoffered
          · rw [hnext] at hrest
            exact hrest.mono (fun e u h => ⟨hoffered.trans h.1,h.2⟩) fun e u h => hoffered.lost h
        · rename_i hall
          refine ⟨hoffered,htime,?_⟩
          rw [endOf, if_pos (by simpa using hall)]
      · have hlost := h.congr_word hword
        split
        · exact ⟨hlost.quiet,hlost.fault,lacks_add.mpr (Or.inl hlost.lacks)⟩
        · exact hlost
    · rw [if_neg hcopied, if_neg hcopied]
      refine ⟨Offered.nil s,rfl,?_⟩
      rw [endOf, copiedChunks, if_neg hcopied]
      rfl

end DmaCamera
