import GameAccelerator.Platform
import GameAccelerator.Tables
import Mathlib.Logic.Function.Iterate

namespace GameAccelerator.Coroutines

open Platform Tables

section Runtime

def waitRead : UInt32 := 1

def waitWrite : UInt32 := 2

def statusNew : UInt32 := 4

def statusReady : UInt32 := 8

def statusFdeof : UInt32 := 256

/-- `polls` is the descriptor of the `nty_poll_inner` in which the coroutine has
yielded, a local of its stack. -/
structure NtyCoroutine where
  status : UInt32
  fd : Int
  polls : Option Int

/-- A coroutine is the number of its allocation. `interest` is what the epoll
descriptor watches, `waiting` the tree of those who wait, by their descriptor. -/
structure NtySchedule where
  heap : Nat → Option NtyCoroutine
  allocated : Nat
  ready : List Nat
  waiting : Table Int Nat
  eventfd : Int
  interest : List Int

/-- `nty_epoller_ev_register_trigger` has epoll watch the descriptor that
`eventfd` returns. -/
def ntyScheduleCreate (eventfd : Int) : NtySchedule := ⟨fun _ => none, 0, [], .empty, eventfd, [eventfd]⟩

/-- What a coroutine says to `nty_poll_inner`, and whether `epoll_ctl` takes the
descriptor. -/
structure Poll where
  fd : Int
  write : Bool
  added : Bool

/-- What a coroutine does from one switch to the next: it closes descriptors,
creates coroutines, and at last polls or returns. -/
structure Slice where
  closes : List Int
  creates : Nat
  next : Option Poll

def ntyCoroutineCreate (s : NtySchedule) : NtySchedule :=
  { s with
    heap := Function.update s.heap s.allocated (some ⟨statusNew, -1, none⟩)
    allocated := s.allocated + 1
    ready := s.ready ++ [s.allocated] }

def ntyCoroutineFree (s : NtySchedule) (co : Nat) : NtySchedule := { s with heap := Function.update s.heap co none }

def setStatus (s : NtySchedule) (co : Nat) (status : UInt32) : Except Fault NtySchedule :=
  match s.heap co with
  | none => .error .useAfterFree
  | some c => .ok { s with heap := Function.update s.heap co (some { c with status := status }) }

/-- With a timeout of 1, the only one in use, the coroutine is not put to sleep.
The flag for reading is the number 0 and not its bit, and the one for writing is
the bit of reading. -/
def ntyScheduleSchedWait (s : NtySchedule) (co : Nat) (fd : Int) (write : Bool) : Except Fault NtySchedule :=
  match s.heap co with
  | none => .error .useAfterFree
  | some c =>
      if c.status &&& waitRead ≠ 0 ∨ c.status &&& waitWrite ≠ 0 then .error .assertFailed
      else if (s.waiting.find fd).isSome then .error .assertFailed
      else
        .ok { s with
          heap := Function.update s.heap co (some ⟨c.status ||| (if write then 1 else 0), fd, some fd⟩)
          waiting := s.waiting.emplace (fun l => ⟨l, .refl l⟩) fd co }

/-- `desched_sleepdown` finds the status cleared. -/
def ntyScheduleDeschedWait (s : NtySchedule) (fd : Int) : Except Fault NtySchedule :=
  match s.waiting.find fd with
  | none => .error .nullDeref
  | some co => setStatus { s with waiting := s.waiting.erase fd } co 0

/-- `nty_poll_inner` up to the yield. -/
def pollBegin (s : NtySchedule) (co : Nat) (p : Poll) : Except Fault NtySchedule :=
  ntyScheduleSchedWait { s with interest := if p.added then p.fd :: s.interest else s.interest } co p.fd p.write

/-- And behind it. -/
def pollEnd (s : NtySchedule) (fd : Int) : Except Fault NtySchedule :=
  ntyScheduleDeschedWait { s with interest := s.interest.filter (· ≠ fd) } fd

/-- At the return of its function a coroutine has the status of one that is
detached, and `nty_coroutine_resume` frees it. -/
def runSlice (s : NtySchedule) (co : Nat) (slice : Slice) : Except Fault NtySchedule :=
  let s := { s with interest := s.interest.filter (· ∉ slice.closes) }
  let s := ntyCoroutineCreate^[slice.creates] s
  match slice.next with
  | some p => pollBegin s co p
  | none => .ok (ntyCoroutineFree s co)

/-- A new coroutine starts its function, another one goes on behind its yield. -/
def ntyCoroutineResume (s : NtySchedule) (co : Nat) (slice : Slice) : Except Fault NtySchedule :=
  match s.heap co with
  | none => .error .useAfterFree
  | some c => do
      let s ← if c.status &&& statusNew ≠ 0 then setStatus s co statusReady else c.polls.elim (.ok s) (pollEnd s)
      runSlice s co slice

/-- The coroutine that waits for the descriptor, with its status cleared. -/
def ntyScheduleSearchWait (s : NtySchedule) (fd : Int) : Except Fault (Nat × NtySchedule) :=
  match s.waiting.find fd with
  | none => .error .nullDeref
  | some co => (setStatus s co 0).map (co, ·)

/-- Where `nty_schedule_run` is: at the test of its loop, in the loop over the
ready queue up to `last`, before `epoll_wait`, in the loop over the events, which
are listed in the order in which they are handled, or back. -/
inductive Phase
  | top
  | ready (last : Option Nat)
  | epoll
  | events (l : List (Int × Bool))
  | done

structure State where
  phase : Phase
  sched : NtySchedule

/-- What the outside does in a step: the slice of the coroutine that is resumed,
or the events of `epoll_wait`, each with whether it is a hang-up. -/
structure Choice where
  slice : Slice
  events : List (Int × Bool)

def ntyScheduleIsdone (s : NtySchedule) : Bool := s.waiting.entries.isEmpty && s.ready.isEmpty

def readyStep (s : NtySchedule) (last : Option Nat) (slice : Slice) : Except Fault State :=
  match s.ready with
  | [] => .ok ⟨.epoll, s⟩
  | co :: rest =>
      match s.heap co with
      | none => .error .useAfterFree
      | some c =>
          if c.status &&& statusFdeof ≠ 0 then .ok ⟨.epoll, ntyCoroutineFree { s with ready := rest } co⟩
          else (ntyCoroutineResume { s with ready := rest } co slice).map
            (⟨if some co = last then .epoll else .ready last, ·⟩)

def eventStep (s : NtySchedule) (fd : Int) (eof : Bool) (l : List (Int × Bool)) (slice : Slice) : Except Fault State := do
  let (co, s) ← ntyScheduleSearchWait s fd
  let s ← setStatus s co (if eof then statusFdeof else 0)
  let s ← ntyCoroutineResume s co slice
  return ⟨.events l, s⟩

/-- One step of `nty_schedule_run`. Nobody sleeps, so there is nothing in its
first part. -/
def step (ch : Choice) (st : State) : Except Fault State :=
  match st.phase with
  | .top => .ok ⟨if ntyScheduleIsdone st.sched then .done else .ready st.sched.ready.getLast?, st.sched⟩
  | .ready last => readyStep st.sched last ch.slice
  | .epoll => .ok ⟨if st.sched.ready.isEmpty then .events ch.events else .top, st.sched⟩
  | .events [] => .ok ⟨.top, st.sched⟩
  | .events ((fd, eof) :: l) => eventStep st.sched fd eof l ch.slice
  | .done => .ok st

def run : List Choice → State → Except Fault State
  | [], st => .ok st
  | ch :: chs, st => do run chs (← step ch st)

/-- After `n` calls of `nty_coroutine_create`. -/
def start (eventfd : Int) (n : Nat) : State := ⟨.top, ntyCoroutineCreate^[n] (ntyScheduleCreate eventfd)⟩

end Runtime

section Invariant

/-- Every coroutine that has not returned is in the ready queue, waits for a
descriptor or runs, and only one of these. Those in the queue have not started,
and besides the eventfd epoll watches only descriptors for which somebody
waits. -/
structure Kept (s : NtySchedule) (running : Option Nat) : Prop where
  live : ∀ co, (s.heap co).isSome ↔ some co = running ∨ co ∈ s.ready ∨ ∃ fd, s.waiting.find fd = some co
  apart : ∀ co, some co = running → co ∉ s.ready ∧ ∀ fd, s.waiting.find fd ≠ some co
  clear : ∀ co c, some co = running → s.heap co = some c → c.status = statusReady ∨ c.status = 0
  nodup : s.ready.Nodup
  new : ∀ co ∈ s.ready, s.heap co = some ⟨statusNew, -1, none⟩
  polls : ∀ fd co, s.waiting.find fd = some co →
    ∃ c, s.heap co = some c ∧ c.polls = some fd ∧ c.fd = fd ∧ c.status &&& statusNew = 0
  fresh : ∀ co, s.allocated ≤ co → s.heap co = none
  interest : ∀ fd ∈ s.interest, fd = s.eventfd ∨ (s.waiting.find fd).isSome

variable {s : NtySchedule} {co : Nat} {fd : Int} {running : Option Nat}

theorem kept_init (eventfd : Int) : Kept (ntyScheduleCreate eventfd) none where
  live co := by simp [ntyScheduleCreate, Table.find, Table.empty]
  apart co h := by cases h
  clear co c h := by cases h
  nodup := List.nodup_nil
  new co h := by cases h
  polls fd co h := by cases h
  fresh co _ := rfl
  interest fd h := .inl (List.mem_singleton.mp h)

theorem Kept.ne_of_fresh (h : Kept s running) {c : NtyCoroutine} (hc : s.heap co = some c) {co' : Nat}
    (hco' : s.allocated ≤ co') : co' ≠ co := by
  rintro rfl
  cases (h.fresh co' hco').symm.trans hc

theorem Kept.waits_once (h : Kept s running) {fd' : Int} (hfd : s.waiting.find fd = some co)
    (hfd' : s.waiting.find fd' = some co) : fd = fd' := by
  obtain ⟨c, hc, hp, -⟩ := h.polls fd co hfd
  obtain ⟨c', hc', hp', -⟩ := h.polls fd' co hfd'
  cases hc.symm.trans hc'
  exact Option.some.inj (hp.symm.trans hp')

theorem Kept.ready_not_waiting (h : Kept s running) (hco : co ∈ s.ready) (fd : Int) : s.waiting.find fd ≠ some co := by
  intro hfd
  obtain ⟨c, hc, hp, -⟩ := h.polls fd co hfd
  cases (h.new co hco).symm.trans hc
  cases hp

theorem Kept.create (h : Kept s running) : Kept (ntyCoroutineCreate s) running := by
  have hout (co : Nat) (c : NtyCoroutine) (hc : s.heap co = some c) : co ≠ s.allocated :=
    (h.ne_of_fresh hc (Nat.le_refl _)).symm
  have hnot : s.allocated ∉ s.ready := fun hmem => hout _ _ (h.new _ hmem) rfl
  refine ⟨fun co => ?_, fun co hco => ⟨?_, (h.apart co hco).2⟩, fun co c hco hc => ?_, ?_, fun co hco => ?_,
    fun fd co hfd => ?_, fun co hco => ?_, h.interest⟩
  · simp only [ntyCoroutineCreate, Function.update_apply, List.mem_append, List.mem_singleton]
    by_cases hco : co = s.allocated
    · simp [hco]
    · simp only [hco, or_false]
      exact h.live co
  · have hsome := (h.live co).mpr (.inl hco)
    obtain ⟨c, hc⟩ := Option.isSome_iff_exists.mp hsome
    simp only [ntyCoroutineCreate, List.mem_append, List.mem_singleton, not_or]
    exact ⟨(h.apart co hco).1, hout co c hc⟩
  · have hsome := (h.live co).mpr (.inl hco)
    obtain ⟨c', hc'⟩ := Option.isSome_iff_exists.mp hsome
    simp only [ntyCoroutineCreate, Function.update_of_ne (hout co c' hc')] at hc
    exact h.clear co c hco hc
  · exact List.nodup_append_comm.mp (List.nodup_cons.mpr ⟨hnot, h.nodup⟩)
  · simp only [ntyCoroutineCreate] at hco ⊢
    rcases List.mem_append.mp hco with hco | hco
    · rw [Function.update_of_ne (hout co _ (h.new co hco))]
      exact h.new co hco
    · rw [List.mem_singleton.mp hco, Function.update_self]
  · obtain ⟨c, hc, hrest⟩ := h.polls fd co hfd
    refine ⟨c, ?_, hrest⟩
    simp only [ntyCoroutineCreate]
    rw [Function.update_of_ne (hout co c hc)]
    exact hc
  · simp only [ntyCoroutineCreate] at hco ⊢
    rw [Function.update_of_ne (by omega)]
    exact h.fresh co (by omega)

theorem Kept.creates (h : Kept s running) (n : Nat) : Kept (ntyCoroutineCreate^[n] s) running := by
  induction n generalizing s with
  | zero => exact h
  | succ n ih => exact ih h.create

theorem creates_frame (s : NtySchedule) (n : Nat) :
    (ntyCoroutineCreate^[n] s).waiting = s.waiting ∧ (ntyCoroutineCreate^[n] s).interest = s.interest := by
  induction n generalizing s with
  | zero => exact ⟨rfl, rfl⟩
  | succ n ih => exact ih (ntyCoroutineCreate s)

theorem Kept.watch (h : Kept s running) {l : List Int} (hl : ∀ fd ∈ l, fd = s.eventfd ∨ (s.waiting.find fd).isSome) :
    Kept { s with interest := l } running :=
  ⟨h.live, h.apart, h.clear, h.nodup, h.new, h.polls, h.fresh, hl⟩

theorem Kept.close (h : Kept s running) (closes : List Int) :
    Kept { s with interest := s.interest.filter (· ∉ closes) } running :=
  h.watch fun fd hfd => h.interest fd (List.mem_of_mem_filter hfd)

/-- The coroutine that runs returns. -/
theorem Kept.free (h : Kept s (some co)) : Kept (ntyCoroutineFree s co) none := by
  obtain ⟨hready, hwaiting⟩ := h.apart co rfl
  refine ⟨fun co' => ?_, fun co' h' => (by cases h'), fun co' c h' => (by cases h'), h.nodup, fun co' hco' => ?_,
    fun fd co' hfd => ?_, fun co' hco' => ?_, h.interest⟩
  · simp only [ntyCoroutineFree, Function.update_apply]
    by_cases hco : co' = co
    · subst hco
      simp [hready, hwaiting]
    · rw [if_neg hco, h.live co']
      simp [hco]
  · have hne : co' ≠ co := fun heq => hready (heq ▸ hco')
    simp only [ntyCoroutineFree, Function.update_of_ne hne]
    exact h.new co' hco'
  · have hne : co' ≠ co := fun heq => hwaiting fd (heq ▸ hfd)
    simp only [ntyCoroutineFree, Function.update_of_ne hne]
    exact h.polls fd co' hfd
  · simp only [ntyCoroutineFree, Function.update_apply]
    split
    · rfl
    · exact h.fresh co' hco'

/-- The scheduler after a `nty_poll_inner` has yielded. -/
def parked (s : NtySchedule) (co : Nat) (c : NtyCoroutine) (p : Poll) : NtySchedule :=
  { s with
    heap := Function.update s.heap co (some ⟨c.status ||| (if p.write then 1 else 0), p.fd, some p.fd⟩)
    waiting := s.waiting.emplace (fun l => ⟨l, .refl l⟩) p.fd co
    interest := if p.added then p.fd :: s.interest else s.interest }

theorem find_parked {c : NtyCoroutine} {p : Poll} (hfree : s.waiting.find p.fd = none) (fd : Int) :
    (parked s co c p).waiting.find fd = if fd = p.fd then some co else s.waiting.find fd :=
  find_emplace hfree _ co fd

theorem mem_interest_parked {c : NtyCoroutine} {p : Poll} (hne : fd ≠ p.fd) (hmem : fd ∈ (parked s co c p).interest) :
    fd ∈ s.interest := by
  simp only [parked] at hmem
  split at hmem
  · exact (List.mem_cons.mp hmem).resolve_left hne
  · exact hmem

theorem Kept.status (h : Kept s (some co)) {c : NtyCoroutine} (hc : s.heap co = some c) (write : Bool) :
    ¬(c.status &&& waitRead ≠ 0 ∨ c.status &&& waitWrite ≠ 0) ∧
      (c.status ||| (if write then 1 else 0)) &&& statusNew = 0 := by
  rcases h.clear co c rfl hc with hs | hs <;> rw [hs] <;> cases write <;> decide

theorem Kept.parked (h : Kept s (some co)) {c : NtyCoroutine} (hc : s.heap co = some c) {p : Poll}
    (hfree : s.waiting.find p.fd = none) : Kept (parked s co c p) none := by
  obtain ⟨hready, hwaiting⟩ := h.apart co rfl
  have hother {co' : Nat} (hne : co' ≠ co) : (Coroutines.parked s co c p).heap co' = s.heap co' := Function.update_of_ne hne _ _
  have hself : (Coroutines.parked s co c p).heap co = some ⟨c.status ||| (if p.write then 1 else 0), p.fd, some p.fd⟩ :=
    Function.update_self ..
  refine ⟨fun co' => ?_, fun co' h' => (by cases h'), fun co' c' h' => (by cases h'), h.nodup, fun co' hco' => ?_,
    fun fd co' hfd => ?_, fun co' hco' => ?_, fun fd hfd => ?_⟩
  · simp only [find_parked hfree]
    by_cases hco : co' = co
    · subst hco
      rw [hself]
      exact iff_of_true rfl (.inr (.inr ⟨p.fd, if_pos rfl⟩))
    · rw [hother hco, h.live co']
      simp only [Option.some.injEq, hco, false_or, reduceCtorEq]
      refine or_congr_right (exists_congr fun fd => ⟨fun hfd => ?_, fun hfd => ?_⟩)
      · rw [if_neg, hfd]
        rintro rfl
        cases hfree.symm.trans hfd
      · split at hfd
        · exact absurd (Option.some.inj hfd).symm hco
        · exact hfd
  · rw [hother fun heq => hready (heq ▸ hco')]
    exact h.new co' hco'
  · rw [find_parked hfree] at hfd
    split at hfd
    · next heq =>
      cases hfd
      exact ⟨_, hself, by rw [heq], heq.symm, (h.status hc p.write).2⟩
    · rw [hother fun heq => hwaiting fd (heq ▸ hfd)]
      exact h.polls fd co' hfd
  · rw [hother (h.ne_of_fresh hc hco')]
    exact h.fresh co' hco'
  · rw [find_parked hfree]
    split
    · exact .inr rfl
    · next hne => exact h.interest fd (mem_interest_parked hne hfd)

theorem pollBegin_free (h : Kept s (some co)) {c : NtyCoroutine} (hc : s.heap co = some c) {p : Poll}
    (hfree : s.waiting.find p.fd = none) : pollBegin s co p = .ok (parked s co c p) := by
  simp only [pollBegin, ntyScheduleSchedWait, hc]
  rw [if_neg (h.status hc p.write).1, hfree, if_neg (by simp)]
  rfl

theorem pollBegin_taken (h : Kept s (some co)) {p : Poll} (htaken : (s.waiting.find p.fd).isSome) :
    pollBegin s co p = .error .assertFailed := by
  obtain ⟨c, hc⟩ := Option.isSome_iff_exists.mp ((h.live co).mpr (.inl rfl))
  simp only [pollBegin, ntyScheduleSchedWait, hc]
  rw [if_pos htaken]
  exact ite_self _

/-- Who waits for the descriptor is let alone. -/
def Leaves (fd : Int) (s s' : NtySchedule) : Prop :=
  ∀ co, s.waiting.find fd = some co → s'.waiting.find fd = some co ∧ (fd ∈ s'.interest → fd ∈ s.interest)

theorem leaves_parked {c : NtyCoroutine} {p : Poll} (hfree : s.waiting.find p.fd = none) (fd : Int) :
    Leaves fd s (parked s co c p) := by
  intro co' hfd
  have hne : fd ≠ p.fd := by
    rintro rfl
    cases hfree.symm.trans hfd
  refine ⟨?_, mem_interest_parked hne⟩
  rw [find_parked hfree, if_neg hne]
  exact hfd

/-- A slice ends with the coroutine in its place, or with the assertion that
nobody else waits for the descriptor. -/
theorem Kept.slice (h : Kept s (some co)) (slice : Slice) :
    (∃ s', runSlice s co slice = .ok s' ∧ Kept s' none ∧ (∀ fd, Leaves fd s s') ∧
      ∀ p ∈ slice.next, s.waiting.find p.fd = none) ∨
      runSlice s co slice = .error .assertFailed ∧ ∃ p ∈ slice.next, s.waiting.find p.fd ≠ none := by
  have hkept := (h.close slice.closes).creates slice.creates
  obtain ⟨hwait, hint⟩ := creates_frame { s with interest := s.interest.filter (· ∉ slice.closes) } slice.creates
  have hleaves (fd : Int) : Leaves fd s
      (ntyCoroutineCreate^[slice.creates] { s with interest := s.interest.filter (· ∉ slice.closes) }) := by
    refine fun co' hfd => ⟨by rw [hwait]; exact hfd, fun hmem => ?_⟩
    rw [hint] at hmem
    exact List.mem_of_mem_filter hmem
  rw [runSlice]
  cases hn : slice.next with
  | none => exact .inl ⟨_, rfl, hkept.free, hleaves, fun p hp => (by cases hp)⟩
  | some p =>
      cases hfind : s.waiting.find p.fd with
      | none =>
          obtain ⟨c, hc⟩ := Option.isSome_iff_exists.mp ((hkept.live co).mpr (.inl rfl))
          have hfree := (congrArg (Table.find · p.fd) hwait).trans hfind
          refine .inl ⟨_, pollBegin_free hkept hc hfree, hkept.parked hc hfree, fun fd co' hfd => ?_, fun p' hp' => ?_⟩
          · obtain ⟨hfd₁, hmem₁⟩ := hleaves fd co' hfd
            obtain ⟨hfd₂, hmem₂⟩ := @leaves_parked _ co c p hfree fd co' hfd₁
            exact ⟨hfd₂, hmem₁ ∘ hmem₂⟩
          · cases hp'
            exact hfind
      | some other =>
          refine .inr ⟨pollBegin_taken hkept ?_, p, rfl, ?_⟩
          · rw [hwait, hfind]
            rfl
          · rw [hfind]
            exact Option.some_ne_none other

/-- The scheduler when a coroutine that is in the queue starts. -/
def started (s : NtySchedule) (co : Nat) (rest : List Nat) : NtySchedule :=
  { s with heap := Function.update s.heap co (some ⟨statusReady, -1, none⟩), ready := rest }

theorem Kept.started (h : Kept s none) {rest : List Nat} (hr : s.ready = co :: rest) : Kept (started s co rest) (some co) := by
  have hnew := h.new co (hr ▸ List.mem_cons_self)
  have hnodup := h.nodup
  rw [hr] at hnodup
  have hwaiting := h.ready_not_waiting (hr ▸ List.mem_cons_self)
  have hother {co' : Nat} (hne : co' ≠ co) : (Coroutines.started s co rest).heap co' = s.heap co' :=
    Function.update_of_ne hne _ _
  have hself : (Coroutines.started s co rest).heap co = some ⟨statusReady, -1, none⟩ := Function.update_self ..
  refine ⟨fun co' => ?_, fun co' h' => ?_, fun co' c h' hc => ?_, hnodup.of_cons, fun co' hco' => ?_, fun fd co' hfd => ?_,
    fun co' hco' => ?_, h.interest⟩
  · by_cases hco : co' = co
    · subst hco
      rw [hself]
      exact iff_of_true rfl (.inl rfl)
    · rw [hother hco, h.live co', hr]
      simp only [Coroutines.started, Option.some.injEq, hco, false_or, List.mem_cons, reduceCtorEq]
  · cases h'
    exact ⟨(List.nodup_cons.mp hnodup).1, hwaiting⟩
  · cases h'
    cases hself.symm.trans hc
    exact .inl rfl
  · have hne : co' ≠ co := fun heq => (List.nodup_cons.mp hnodup).1 (heq ▸ hco')
    rw [hother hne]
    exact h.new co' (hr ▸ List.mem_cons_of_mem co hco')
  · rw [hother fun heq => hwaiting fd (heq ▸ hfd)]
    exact h.polls fd co' hfd
  · rw [hother (h.ne_of_fresh hnew hco')]
    exact h.fresh co' hco'

/-- The scheduler when a coroutine goes on behind its `nty_poll_inner`. -/
def woken (s : NtySchedule) (co : Nat) (c : NtyCoroutine) (fd : Int) : NtySchedule :=
  { s with
    heap := Function.update s.heap co (some { c with status := 0 })
    waiting := s.waiting.erase fd
    interest := s.interest.filter (· ≠ fd) }

theorem find_woken (s : NtySchedule) (co : Nat) (c : NtyCoroutine) (fd fd' : Int) :
    (woken s co c fd).waiting.find fd' = if fd' = fd then none else s.waiting.find fd' :=
  find_erase _ _ _

theorem Kept.woken (h : Kept s none) (hfd : s.waiting.find fd = some co) {c : NtyCoroutine} (hc : s.heap co = some c) :
    Kept (woken s co c fd) (some co) := by
  have hready : co ∉ s.ready := fun hmem => h.ready_not_waiting hmem fd hfd
  have hother {co' : Nat} (hne : co' ≠ co) : (Coroutines.woken s co c fd).heap co' = s.heap co' := Function.update_of_ne hne _ _
  have hself : (Coroutines.woken s co c fd).heap co = some { c with status := 0 } := Function.update_self ..
  refine ⟨fun co' => ?_, fun co' h' => ?_, fun co' c' h' hc' => ?_, h.nodup, fun co' hco' => ?_, fun fd' co' hfd' => ?_,
    fun co' hco' => ?_, fun fd' hfd' => ?_⟩
  · simp only [find_woken]
    by_cases hco : co' = co
    · subst hco
      rw [hself]
      exact iff_of_true rfl (.inl rfl)
    · rw [hother hco, h.live co']
      simp only [Option.some.injEq, hco, false_or, reduceCtorEq]
      refine or_congr_right (exists_congr fun fd' => ⟨fun hfd' => ?_, fun hfd' => ?_⟩)
      · rw [if_neg, hfd']
        rintro rfl
        exact hco (Option.some.inj (hfd'.symm.trans hfd))
      · split at hfd'
        · cases hfd'
        · exact hfd'
  · cases h'
    refine ⟨hready, fun fd' hfd' => ?_⟩
    rw [find_woken] at hfd'
    split at hfd'
    · cases hfd'
    · next hne => exact hne (h.waits_once hfd' hfd)
  · cases h'
    cases hself.symm.trans hc'
    exact .inr rfl
  · rw [hother fun heq => hready (heq ▸ hco')]
    exact h.new co' hco'
  · rw [find_woken] at hfd'
    split at hfd'
    · cases hfd'
    · next hne =>
      rw [hother fun heq => hne (h.waits_once (heq ▸ hfd') hfd)]
      exact h.polls fd' co' hfd'
  · rw [hother (h.ne_of_fresh hc hco')]
    exact h.fresh co' hco'
  · obtain ⟨hmem, hne⟩ := List.mem_filter.mp hfd'
    rw [find_woken, if_neg (of_decide_eq_true hne)]
    exact h.interest fd' hmem

end Invariant

section Run

variable {s : NtySchedule} {co : Nat} {fd : Int} {slice : Slice} {ch : Choice} {st : State}

theorem readyStep_eq {rest : List Nat} (hr : s.ready = co :: rest) (hc : s.heap co = some ⟨statusNew, -1, none⟩)
    (last : Option Nat) : readyStep s last slice =
      (runSlice (started s co rest) co slice).map (⟨if some co = last then .epoll else .ready last, ·⟩) := by
  have hresume : ntyCoroutineResume { s with ready := rest } co slice = runSlice (started s co rest) co slice := by
    simp only [ntyCoroutineResume, setStatus, hc]
    rfl
  simp only [readyStep, hr, hc, hresume]
  rfl

theorem eventStep_eq {c : NtyCoroutine} (hfd : s.waiting.find fd = some co) (hc : s.heap co = some c) (hp : c.polls = some fd)
    (eof : Bool) (l : List (Int × Bool)) :
    eventStep s fd eof l slice = (runSlice (woken s co c fd) co slice).map (⟨.events l, ·⟩) := by
  have hstatus : (if eof then statusFdeof else 0) &&& statusNew = 0 := by cases eof <;> decide
  have hsearch : ntyScheduleSearchWait s fd =
      .ok (co, { s with heap := Function.update s.heap co (some { c with status := 0 }) }) := by
    simp only [ntyScheduleSearchWait, setStatus, hfd, hc]
    rfl
  have hset : setStatus { s with heap := Function.update s.heap co (some { c with status := 0 }) } co
      (if eof then statusFdeof else 0) =
      .ok { s with heap := Function.update s.heap co (some { c with status := if eof then statusFdeof else 0 }) } := by
    simp only [setStatus, Function.update_self, Function.update_idem]
  have hresume : ntyCoroutineResume
      { s with heap := Function.update s.heap co (some { c with status := if eof then statusFdeof else 0 }) } co slice =
      runSlice (woken s co c fd) co slice := by
    simp only [ntyCoroutineResume, Function.update_self, hp, Option.elim_some, pollEnd, ntyScheduleDeschedWait, hfd, setStatus,
      Function.update_idem, woken]
    rw [if_neg (not_not.mpr hstatus)]
    rfl
  rw [eventStep, hsearch]
  change (setStatus _ co _ >>= fun s => ntyCoroutineResume s co slice >>= fun s => pure (State.mk (.events l) s)) = _
  rw [hset]
  change (ntyCoroutineResume _ co slice >>= fun s => pure (State.mk (.events l) s)) = _
  rw [hresume]
  cases runSlice (woken s co c fd) co slice <;> rfl

/-- epoll reports descriptors that it watches, each of them once. Nobody writes to
the eventfd, so it is not reported unless a coroutine waits for a descriptor
that has this number. -/
def Reports (ch : Choice) (st : State) : Prop :=
  (ch.events.map Prod.fst).Nodup ∧ ∀ fd ∈ ch.events.map Prod.fst,
    fd ∈ st.sched.interest ∧ (fd = st.sched.eventfd → (st.sched.waiting.find fd).isSome)

/-- The coroutine that is resumed polls no descriptor for which another one
waits. -/
def Exclusive (ch : Choice) (st : State) : Prop :=
  match st.phase with
  | .ready _ => st.sched.ready ≠ [] → ∀ p ∈ ch.slice.next, st.sched.waiting.find p.fd = none
  | .events ((fd, _) :: _) => ∀ p ∈ ch.slice.next, p.fd ≠ fd → st.sched.waiting.find p.fd = none
  | _ => True

/-- What holds between two steps. -/
structure Sound (st : State) : Prop where
  kept : Kept st.sched none
  events : ∀ l, st.phase = .events l → (l.map Prod.fst).Nodup ∧ ∀ fd ∈ l.map Prod.fst, (st.sched.waiting.find fd).isSome
  done : st.phase = .done → ∀ co, st.sched.heap co = none

/-- A coroutine waits for a descriptor that epoll neither watches nor has
reported. -/
structure Stuck (fd : Int) (co : Nat) (st : State) : Prop where
  waits : st.sched.waiting.find fd = some co
  unwatched : fd ∉ st.sched.interest
  unreported : ∀ l, st.phase = .events l → fd ∉ l.map Prod.fst

theorem Stuck.leaves {st' : State} (h : Stuck fd co st) (hl : Leaves fd st.sched st'.sched)
    (hphase : ∀ l, st'.phase = .events l → fd ∉ l.map Prod.fst) : Stuck fd co st' :=
  ⟨(hl co h.waits).1, h.unwatched ∘ (hl co h.waits).2, hphase⟩

theorem Sound.ready (h : Sound st) (last : Option Nat) :
    (∃ st', readyStep st.sched last slice = .ok st' ∧ Sound st' ∧ (∀ fd co, Stuck fd co st → Stuck fd co st') ∧
      (st.sched.ready ≠ [] → ∀ p ∈ slice.next, st.sched.waiting.find p.fd = none)) ∨
      readyStep st.sched last slice = .error .assertFailed ∧ st.sched.ready ≠ [] ∧
        ∃ p ∈ slice.next, st.sched.waiting.find p.fd ≠ none := by
  cases hr : st.sched.ready with
  | nil =>
      refine .inl ⟨⟨.epoll, st.sched⟩, ?_, ⟨h.kept, fun l hl => (by cases hl), fun hd => (by cases hd)⟩,
        fun fd co hs => ⟨hs.waits, hs.unwatched, fun l hl => (by cases hl)⟩, fun hne => absurd rfl hne⟩
      rw [readyStep, hr]
  | cons co rest =>
      rw [readyStep_eq hr (h.kept.new co (hr ▸ List.mem_cons_self))]
      rcases (h.kept.started hr).slice slice with ⟨s', hs', hk, hleaves, hfree⟩ | ⟨herr, hp⟩
      · rw [hs']
        have hphase (l : List (Int × Bool)) : (if some co = last then Phase.epoll else .ready last) ≠ .events l := by
          split <;> rintro ⟨⟩
        refine .inl ⟨_, rfl, ⟨hk, fun l hl => absurd hl (hphase l), fun hd => ?_⟩,
          fun fd co hs => hs.leaves (hleaves fd) fun l hl => absurd hl (hphase l), fun _ => hfree⟩
        dsimp only at hd
        split at hd <;> cases hd
      · rw [herr]
        exact .inr ⟨rfl, List.cons_ne_nil co rest, hp⟩

theorem Sound.event (h : Sound st) {eof : Bool} {l : List (Int × Bool)} (hphase : st.phase = .events ((fd, eof) :: l)) :
    (∃ st', eventStep st.sched fd eof l slice = .ok st' ∧ Sound st' ∧ (∀ fd co, Stuck fd co st → Stuck fd co st') ∧
      ∀ p ∈ slice.next, p.fd ≠ fd → st.sched.waiting.find p.fd = none) ∨
      eventStep st.sched fd eof l slice = .error .assertFailed ∧
        ∃ p ∈ slice.next, p.fd ≠ fd ∧ st.sched.waiting.find p.fd ≠ none := by
  obtain ⟨hnodup, hwait⟩ := h.events _ hphase
  rw [List.map_cons, List.nodup_cons] at hnodup
  rw [List.map_cons, List.forall_mem_cons] at hwait
  obtain ⟨co, hco⟩ := Option.isSome_iff_exists.mp hwait.1
  obtain ⟨c, hc, hp, -⟩ := h.kept.polls fd co hco
  rw [eventStep_eq hco hc hp]
  rcases (h.kept.woken hco hc).slice slice with ⟨s', hs', hk, hleaves, hfree⟩ | ⟨herr, p, hmem, hp⟩
  · rw [hs']
    have hother (fd' : Int) (hne : fd' ≠ fd) : Leaves fd' st.sched s' := by
      intro co' hco'
      obtain ⟨hco₁, hmem⟩ := hleaves fd' co' (by rw [find_woken, if_neg hne]; exact hco')
      exact ⟨hco₁, fun hm => List.mem_of_mem_filter (hmem hm)⟩
    refine .inl ⟨_, rfl, ⟨hk, fun l' hl' => ?_, fun hd => (by cases hd)⟩, fun fd' co' hs => ?_, fun p hp hne => ?_⟩
    · cases hl'
      refine ⟨hnodup.2, fun fd' hfd' => ?_⟩
      have hne : fd' ≠ fd := by
        rintro rfl
        exact hnodup.1 hfd'
      obtain ⟨co', hco'⟩ := Option.isSome_iff_exists.mp (hwait.2 fd' hfd')
      rw [(hother fd' hne co' hco').1]
      rfl
    · have hout := hs.unreported _ hphase
      rw [List.map_cons, List.mem_cons, not_or] at hout
      refine hs.leaves (hother fd' hout.1) fun l' hl' => ?_
      cases hl'
      exact hout.2
    · have hnone := hfree p hp
      rwa [find_woken, if_neg hne] at hnone
  · rw [herr]
    refine .inr ⟨rfl, p, hmem, ?_⟩
    rw [find_woken] at hp
    split at hp
    · exact absurd rfl hp
    · next hne => exact ⟨hne, hp⟩

theorem isdone_free (h : Kept s none) (hd : ntyScheduleIsdone s = true) (co : Nat) : s.heap co = none := by
  rw [ntyScheduleIsdone, Bool.and_eq_true, List.isEmpty_iff, List.isEmpty_iff] at hd
  apply Option.not_isSome_iff_eq_none.mp
  intro hsome
  rcases (h.live co).mp hsome with hrun | hready | ⟨fd, hfd⟩
  · cases hrun
  · rw [hd.2] at hready
    cases hready
  · have hmem := find_eq_some.mp hfd
    rw [hd.1] at hmem
    cases hmem

/-- A step does what it should unless two coroutines wait for one descriptor. -/
theorem Sound.step (h : Sound st) (hrep : Reports ch st) :
    (∃ st', step ch st = .ok st' ∧ Sound st' ∧ (∀ fd co, Stuck fd co st → Stuck fd co st') ∧ Exclusive ch st) ∨
      step ch st = .error .assertFailed ∧ ¬Exclusive ch st := by
  obtain ⟨phase, s⟩ := st
  cases phase with
  | top =>
      have hphase (l : List (Int × Bool)) :
          (if ntyScheduleIsdone s then Phase.done else .ready s.ready.getLast?) ≠ .events l := by
        split <;> rintro ⟨⟩
      refine .inl ⟨_, rfl, ⟨h.kept, fun l hl => absurd hl (hphase l), fun hd => ?_⟩,
        fun fd co hs => ⟨hs.waits, hs.unwatched, fun l hl => absurd hl (hphase l)⟩, trivial⟩
      dsimp only at hd
      split at hd
      · next hdone => exact isdone_free h.kept hdone
      · cases hd
  | ready last =>
      rcases @Sound.ready ch.slice _ h last with hok | ⟨herr, hne, p, hmem, hp⟩
      · exact .inl hok
      · exact .inr ⟨herr, fun hex => hp (hex hne p hmem)⟩
  | epoll =>
      have hphase (l : List (Int × Bool)) (hl : (if s.ready.isEmpty then Phase.events ch.events else .top) = .events l) :
          l = ch.events := by
        split at hl <;> cases hl
        rfl
      refine .inl ⟨_, rfl, ⟨h.kept, fun l hl => ?_, fun hd => ?_⟩, fun fd co hs => ⟨hs.waits, hs.unwatched, fun l hl => ?_⟩, trivial⟩
      · rw [hphase l hl]
        refine ⟨hrep.1, fun fd hfd => ?_⟩
        obtain ⟨hmem, heventfd⟩ := hrep.2 fd hfd
        exact (h.kept.interest fd hmem).elim heventfd id
      · dsimp only at hd
        split at hd <;> cases hd
      · rw [hphase l hl]
        exact fun hmem => hs.unwatched (hrep.2 fd hmem).1
  | events l =>
      cases l with
      | nil =>
          exact .inl ⟨_, rfl, ⟨h.kept, fun l hl => (by cases hl), fun hd => (by cases hd)⟩,
            fun fd co hs => ⟨hs.waits, hs.unwatched, fun l hl => (by cases hl)⟩, trivial⟩
      | cons ev l =>
          obtain ⟨fd, eof⟩ := ev
          rcases @Sound.event fd ch.slice _ h eof l rfl with hok | ⟨herr, p, hmem, hne, hp⟩
          · exact .inl hok
          · exact .inr ⟨herr, fun hex => hp (hex p hmem hne)⟩
  | done => exact .inl ⟨_, rfl, h, fun fd co hs => hs, trivial⟩

/-- A property of the choices at every step of a run. -/
def Along (P : Choice → State → Prop) : List Choice → State → Prop
  | [], _ => True
  | ch :: chs, st => P ch st ∧ ∀ st', step ch st = .ok st' → Along P chs st'

instance (ch : Choice) (st : State) : Decidable (Reports ch st) := inferInstanceAs (Decidable (_ ∧ _))

instance (ch : Choice) (st : State) : Decidable (Exclusive ch st) := by
  rw [Exclusive]
  split <;> infer_instance

instance decidableAlong (P : Choice → State → Prop) [∀ ch st, Decidable (P ch st)] :
    (chs : List Choice) → (st : State) → Decidable (Along P chs st)
  | [], _ => .isTrue trivial
  | ch :: chs, st =>
      match hst : step ch st with
      | .error f => decidable_of_iff (P ch st) ⟨fun h => ⟨h, fun st' h' => (by cases hst.symm.trans h')⟩, And.left⟩
      | .ok st₁ =>
          have := decidableAlong P chs st₁
          decidable_of_iff (P ch st ∧ Along P chs st₁)
            ⟨fun h => ⟨h.1, fun st' h' => (by cases hst.symm.trans h'; exact h.2)⟩, fun h => ⟨h.1, h.2 st₁ hst⟩⟩

theorem Sound.run {chs : List Choice} (h : Sound st) (hrep : Along Reports chs st) :
    (∃ st', run chs st = .ok st' ∧ Sound st' ∧ (∀ fd co, Stuck fd co st → Stuck fd co st') ∧ Along Exclusive chs st) ∨
      run chs st = .error .assertFailed ∧ ¬Along Exclusive chs st := by
  induction chs generalizing st with
  | nil => exact .inl ⟨st, rfl, h, fun fd co hs => hs, trivial⟩
  | cons ch chs ih =>
      rcases h.step hrep.1 with ⟨st₁, hst₁, h₁, hstuck₁, hex⟩ | ⟨herr, hnot⟩
      · have hrun : Coroutines.run (ch :: chs) st = Coroutines.run chs st₁ := by
          rw [Coroutines.run, hst₁]
          rfl
        rw [hrun]
        rcases ih h₁ (hrep.2 st₁ hst₁) with ⟨st', hst', h', hstuck, hall⟩ | ⟨herr, hnot⟩
        · refine .inl ⟨st', hst', h', fun fd co hs => hstuck fd co (hstuck₁ fd co hs), hex, fun st₂ hst₂ => ?_⟩
          cases hst₁.symm.trans hst₂
          exact hall
        · exact .inr ⟨herr, fun hall => hnot (hall.2 st₁ hst₁)⟩
      · refine .inr ⟨?_, fun hall => hnot hall.1⟩
        rw [Coroutines.run, herr]
        rfl

theorem sound_start (eventfd : Int) (n : Nat) : Sound (start eventfd n) :=
  ⟨(kept_init eventfd).creates n, fun l hl => (by cases hl), fun hd => (by cases hd)⟩

/-- `nty_schedule_run` fails only at the assertion that no two coroutines wait
for one descriptor, and never touches a coroutine that is not there. Until then
nobody is lost, and it returns when all have returned. -/
theorem coroutines_kept (eventfd : Int) (n : Nat) (chs : List Choice) (hrep : Along Reports chs (start eventfd n)) :
    ((∃ st, run chs (start eventfd n) = .ok st) ↔ Along Exclusive chs (start eventfd n)) ∧
      (∀ f, run chs (start eventfd n) = .error f → f = .assertFailed) ∧
      ∀ st, run chs (start eventfd n) = .ok st →
        (∀ co, (st.sched.heap co).isSome ↔ co ∈ st.sched.ready ∨ ∃ fd, st.sched.waiting.find fd = some co) ∧
        st.sched.ready.Nodup ∧ (∀ co ∈ st.sched.ready, ∀ fd, st.sched.waiting.find fd ≠ some co) ∧
        (∀ fd fd' co, st.sched.waiting.find fd = some co → st.sched.waiting.find fd' = some co → fd = fd') ∧
        (∀ fd ∈ st.sched.interest, fd = st.sched.eventfd ∨ (st.sched.waiting.find fd).isSome) ∧
        (st.phase = .done → ∀ co, st.sched.heap co = none) := by
  rcases (sound_start eventfd n).run hrep with ⟨st, hrun, h, -, hex⟩ | ⟨herr, hnot⟩
  · refine ⟨iff_of_true ⟨st, hrun⟩ hex, fun f hf => ?_, fun st' hst' => ?_⟩
    · cases hrun.symm.trans hf
    · cases hrun.symm.trans hst'
      refine ⟨fun co => ?_, h.kept.nodup, fun co => h.kept.ready_not_waiting, fun fd fd' co => h.kept.waits_once,
        h.kept.interest, h.done⟩
      rw [h.kept.live co]
      simp only [reduceCtorEq, false_or]
  · refine ⟨iff_of_false (fun hok => ?_) hnot, fun f hf => ?_, fun st hst => ?_⟩
    · obtain ⟨st, hst⟩ := hok
      cases herr.symm.trans hst
    · cases herr.symm.trans hf
      rfl
    · cases herr.symm.trans hst

/-- The server waits on its socket and takes a client, whose coroutine reads
until the client is gone. Then the server returns. -/
def oneClient : List Choice :=
  [⟨⟨[], 0, none⟩, []⟩, ⟨⟨[], 0, some ⟨3, false, true⟩⟩, []⟩, ⟨⟨[], 0, none⟩, [(3, false)]⟩,
    ⟨⟨[], 1, some ⟨3, false, true⟩⟩, []⟩, ⟨⟨[], 0, none⟩, []⟩, ⟨⟨[], 0, none⟩, []⟩, ⟨⟨[], 0, some ⟨7, false, true⟩⟩, []⟩,
    ⟨⟨[], 0, none⟩, [(7, true)]⟩, ⟨⟨[7], 0, none⟩, []⟩, ⟨⟨[], 0, none⟩, []⟩, ⟨⟨[], 0, none⟩, []⟩, ⟨⟨[], 0, none⟩, []⟩,
    ⟨⟨[], 0, none⟩, [(3, false)]⟩, ⟨⟨[3], 0, none⟩, []⟩, ⟨⟨[], 0, none⟩, []⟩, ⟨⟨[], 0, none⟩, []⟩]

def Phase.isDone : Phase → Bool
  | .done => true
  | _ => false

theorem coroutines_kept_of_one_client :
    ∃ st, run oneClient (start 5 1) = .ok st ∧ st.phase = .done ∧ st.sched.allocated = 2 ∧ (∀ co, st.sched.heap co = none) ∧
      ∀ fd ∈ st.sched.interest, fd = st.sched.eventfd ∨ (st.sched.waiting.find fd).isSome := by
  obtain ⟨hiff, -, hkept⟩ := coroutines_kept 5 1 oneClient (by decide +kernel)
  obtain ⟨st, hst⟩ := hiff.mpr (by decide +kernel)
  obtain ⟨-, -, -, -, hinterest, hdone⟩ := hkept st hst
  have hend : (run oneClient (start 5 1)).toOption.map (fun st => (st.phase.isDone, st.sched.allocated)) = some (true, 2) := by
    decide +kernel
  rw [hst] at hend
  obtain ⟨hphase, hallocated⟩ := Prod.mk.inj (Option.some.inj hend)
  have hphase : st.phase = .done := by
    cases hp : st.phase with
    | done => rfl
    | _ =>
        rw [hp] at hphase
        cases hphase
  exact ⟨st, hst, hphase, hallocated, hdone hphase, hinterest⟩

/-- A coroutine that waits for a descriptor that `epoll_ctl` has refused, such as
the -1 of a failed accept, is never resumed, and `nty_schedule_run` does not
return. -/
theorem unwatched_waits (eventfd : Int) (n : Nat) (chs chs' : List Choice) (st st' : State) (fd : Int) (co : Nat)
    (hrep : Along Reports chs (start eventfd n)) (hrun : run chs (start eventfd n) = .ok st)
    (hwaits : st.sched.waiting.find fd = some co) (hunwatched : fd ∉ st.sched.interest) (hunreported : ∀ l, st.phase = .events l → fd ∉ l.map Prod.fst)
    (hrep' : Along Reports chs' st) (hrun' : run chs' st = .ok st') :
    st'.sched.waiting.find fd = some co ∧ fd ∉ st'.sched.interest ∧ st'.phase ≠ .done := by
  rcases (sound_start eventfd n).run hrep with ⟨st₁, hst₁, h, -⟩ | ⟨herr, -⟩
  · cases hst₁.symm.trans hrun
    rcases h.run hrep' with ⟨st₂, hst₂, h', hstuck, -⟩ | ⟨herr, -⟩
    · cases hst₂.symm.trans hrun'
      have hs := hstuck fd co ⟨hwaits, hunwatched, hunreported⟩
      refine ⟨hs.waits, hs.unwatched, fun hdone => ?_⟩
      have hlive := (h'.kept.live co).mpr (.inr (.inr ⟨fd, hs.waits⟩))
      rw [h'.done hdone co] at hlive
      cases hlive
    · cases herr.symm.trans hrun'
  · cases herr.symm.trans hrun

/-- The accept fails, and the coroutine for its result polls -1. -/
def failedAccept : List Choice :=
  [⟨⟨[], 0, none⟩, []⟩, ⟨⟨[], 0, some ⟨3, false, true⟩⟩, []⟩, ⟨⟨[], 0, none⟩, [(3, false)]⟩,
    ⟨⟨[], 1, some ⟨3, false, true⟩⟩, []⟩, ⟨⟨[], 0, none⟩, []⟩, ⟨⟨[], 0, none⟩, []⟩, ⟨⟨[], 0, some ⟨-1, false, false⟩⟩, []⟩]

/-- The next accept succeeds, and its client comes and goes. -/
def nextAccept : List Choice :=
  [⟨⟨[], 0, none⟩, [(3, false)]⟩, ⟨⟨[], 1, some ⟨3, false, true⟩⟩, []⟩, ⟨⟨[], 0, none⟩, []⟩, ⟨⟨[], 0, none⟩, []⟩,
    ⟨⟨[], 0, some ⟨7, false, true⟩⟩, []⟩, ⟨⟨[], 0, none⟩, [(7, true)]⟩, ⟨⟨[7], 0, none⟩, []⟩, ⟨⟨[], 0, none⟩, []⟩]

theorem unwatched_waits_of_failed_accept :
    ∃ st st', run failedAccept (start 5 1) = .ok st ∧ run nextAccept st = .ok st' ∧ st'.sched.allocated = 3 ∧
      st'.sched.waiting.find (-1) = some 1 ∧ st'.phase ≠ .done := by
  have hwaits := unwatched_waits 5 1 failedAccept nextAccept _ _ (-1) 1 (by decide +kernel) rfl rfl (by decide)
    (fun l hl => (by cases hl)) (by decide +kernel) rfl
  exact ⟨_, _, rfl, rfl, rfl, hwaits.1, hwaits.2.2⟩

end Run

end GameAccelerator.Coroutines
