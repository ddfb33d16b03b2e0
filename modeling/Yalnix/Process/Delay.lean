import Yalnix.Process.Record

/-! Delays. A sleeper leaves the heap at the first clock trap at which its wake-up
time has come, whoever else sleeps. -/
namespace Yalnix

open Hardware

namespace Kernel

variable [Hardware] {label : Label} {s t : Kernel} {p : Proc}

omit [Hardware] in
theorem sleepers_of_records (h : t.records = s.records) : t.sleepers = s.sleepers :=
  congrArg Dormant.sleepers (dormant_of_records h)

omit [Hardware] in
theorem putToSleep_eq {ticks : Word} {growOk : Bool} (h : s.putToSleep p ticks growOk = (t, true)) :
    (s.modifyPcb p fun pcb => { pcb with wakeUp := s.numTicks + ticks, state := .waiting }).addToHeap p growOk =
      some t := by
  unfold putToSleep at h
  dsimp only at h
  split at h
  · rename_i u hAdd
    obtain ⟨rfl, -⟩ := Prod.mk.inj h
    exact hAdd
  · simp at h

/-- The wake-up time of a process that sleeps does not change. -/
theorem wakeUp_effect (h : KernelStart.Sound s) (hEffect : Effect label s t) (hp : p ∈ s.contents .sleeping) :
    (t.pcb p).wakeUp = (s.pcb p).wakeUp := by
  have hNe := ne_running h rfl hp
  have hLive := h.settled.placement.live_of_mem hp
  rcases saved_effect hEffect (fun hRunning => absurd hRunning hNe) hLive.2.1 with hSame | ⟨q, hWoken⟩
  · exact congrArg Prod.snd hSame
  · exact (hWoken.asleep (h.settled.placement.linked (.sched .waitBlocking)).1).2.2 p hNe

/-- How the heap changes: the running process goes to sleep, or the clock takes
out the root. -/
theorem sleepers_effect (h : KernelStart.Sound s) (hEffect : Effect label s t) :
    t.sleepers = s.sleepers ∨
      (∃ parked ticks growOk, s.putToSleep s.runningProc ticks growOk = (parked, true) ∧
        t.sleepers = parked.sleepers ∧ (t.pcb s.runningProc).wakeUp = s.numTicks + ticks) ∨
      label.isClock = true ∧ ∃ u root shrinkOk, s.removeFromHeap shrinkOk = (u, some root) ∧
        t.sleepers = u.sleepers := by
  rcases dormant_effect hEffect with hSame | hStep
  · exact Or.inl (congrArg Dormant.sleepers hSame)
  · cases hStep with
    | @wait u _ hQuiet =>
        refine Or.inl ((sleepers_of_records (records_switchAway u .wait)).trans ?_)
        exact hQuiet.toQuiet.sleepers
    | @sleep parked u ticks growOk _ hSleep hQuiet =>
        refine Or.inr (Or.inl ⟨parked, ticks, growOk, hSleep, ?_, ?_⟩)
        · exact (sleepers_of_records (records_switchAway u .delay)).trans hQuiet.toQuiet.sleepers
        · rw [wakeUp_of_records (records_switchAway u .delay), hQuiet.alarm, addToHeap_eq (putToSleep_eq hSleep)]
          simp [modifyPcb]
    | wakeWaiter hFind =>
        have hWoken : s.Woken _ _ := ⟨_, _, hFind, rfl⟩
        exact Or.inl (hWoken.asleep (h.settled.placement.linked (.sched .waitBlocking)).1).2.1
    | @wakeSleeper u _ proc shrinkOk _ _ hRemove hCall =>
        exact Or.inr (Or.inr ⟨hCall, u, proc, shrinkOk, hRemove, rfl⟩)

/-- A process stays asleep in every step but a clock trap. -/
theorem sleeper_effect (h : KernelStart.Sound s) (hEffect : Effect label s t) (hCall : label.isClock = false)
    (hp : p ∈ s.contents .sleeping) : p ∈ t.contents .sleeping := by
  have hOld : p ∈ s.sleepers.arr.toList := hp
  rcases sleepers_effect h hEffect with hSame | ⟨parked, ticks, growOk, hSleep, hSleepers, -⟩ | ⟨hClock, -⟩
  · rw [contents, hSame]
    exact hOld
  · rw [contents, hSleepers]
    exact (perm_addToHeap (putToSleep_eq hSleep)).1.mem_iff.mpr (List.mem_cons_of_mem _ hOld)
  · rw [hCall] at hClock
    cases hClock

theorem HeapOrdered.effect (hOrdered : s.HeapOrdered) (h : KernelStart.Sound s) (hEffect : Effect label s t) :
    t.HeapOrdered := by
  have hKey (q : Proc) (hq : q ∈ s.sleepers.arr.toList) : (t.pcb q).wakeUp = (s.pcb q).wakeUp :=
    wakeUp_effect h hEffect hq
  rcases sleepers_effect h hEffect with hSame | ⟨parked, ticks, growOk, hSleep, hSleepers, hWakes⟩ |
    ⟨-, u, root, shrinkOk, hRemove, hSleepers⟩
  · exact hOrdered.congr (congrArg Heap.arr hSame) hKey
  · have hAdd := putToSleep_eq hSleep
    have hAwake : ∀ q ∈ s.sleepers.arr.toList, q ≠ s.runningProc := fun q hq => ne_running (a := .sleeping) h rfl hq
    have hSet : (s.modifyPcb s.runningProc fun pcb =>
        { pcb with wakeUp := s.numTicks + ticks, state := .waiting }).HeapOrdered :=
      hOrdered.congr rfl fun q hq => by simp [modifyPcb, Function.update_of_ne (hAwake q hq)]
    refine (hSet.addToHeap hAdd).congr (congrArg Heap.arr hSleepers) fun q hq => ?_
    rw [addToHeap_eq hAdd]
    rcases List.mem_cons.mp ((perm_addToHeap hAdd).1.mem_iff.mp hq) with rfl | hOld
    · simp [modifyPcb, hWakes]
    · simp [modifyPcb, Function.update_of_ne (hAwake q hOld), hKey q hOld]
  · refine (hOrdered.removeFromHeap hRemove).congr (congrArg Heap.arr hSleepers) fun q hq => ?_
    rw [removeFromHeap_eq hRemove]
    exact hKey q ((perm_removeFromHeap hRemove).1.mem_iff.mpr (List.mem_cons_of_mem _ hq))

omit [Hardware] in
theorem HeapOrdered.read (hOrdered : s.HeapOrdered) (id len : Nat) : (s.read id len).HeapOrdered := by
  obtain ⟨ttys, lines, trace, hRead⟩ := read_eq s id len
  rw [hRead]
  exact hOrdered

omit [Hardware] in
/-- The wake-up time of the process has come. -/
def Due (s : Kernel) (p : Proc) : Prop := (s.pcb p).wakeUp.toInt ≤ s.numTicks.toInt

instance (s : Kernel) (p : Proc) : Decidable (s.Due p) :=
  inferInstanceAs (Decidable ((s.pcb p).wakeUp.toInt ≤ s.numTicks.toInt))

section WakeSleepers

variable {fuel : Nat}

omit [Hardware] in
theorem removeFromHeap_root {shrinkOk : Bool} {root : Proc} (hRoot : s.sleepers.arr[0]? = some root)
    (hRemove : s.removeFromHeap shrinkOk = (t, some p)) : p = root := by
  unfold removeFromHeap at hRemove
  rw [hRoot] at hRemove
  exact (Option.some.inj (Prod.mk.inj hRemove).2).symm

omit [Hardware] in
theorem HeapOrdered.root_wakes_first {root : Proc} (h : s.HeapOrdered) (hRoot : s.sleepers.arr[0]? = some root)
    (hp : p ∈ s.sleepers.arr.toList) : (s.pcb root).wakeUp.toInt ≤ (s.pcb p).wakeUp.toInt := by
  obtain ⟨i, hi, rfl⟩ := Array.mem_iff_getElem.mp (Array.mem_toList_iff.mp hp)
  have hLe := h.root_le i hi
  unfold wakeKey at hLe
  rw [Array.getD_eq_getD_getElem?, hRoot, Array.getD_eq_getD_getElem?, Array.getElem?_eq_getElem hi] at hLe
  exact hLe

omit [Hardware] in
/-- When the root is not due, nobody is. -/
theorem HeapOrdered.not_due {root : Proc} (h : s.HeapOrdered) (hRoot : s.sleepers.arr[0]? = some root)
    (hLate : ¬s.Due root) (hp : p ∈ s.contents .sleeping) : ¬s.Due p :=
  fun hDue => hLate ((h.root_wakes_first hRoot hp).trans hDue)

/-- What `wake_sleepers` does to the heap. -/
structure Wakes (s t : Kernel) : Prop where
  clock : t.clock = s.clock
  shrinks : ∀ q ∈ t.contents .sleeping, q ∈ s.contents .sleeping
  due : ∀ q ∈ s.contents .sleeping, s.Due q → q ∉ t.contents .sleeping
  keeps : ∀ q ∈ s.contents .sleeping, ¬s.Due q →
    q ∈ t.contents .sleeping ∧ (t.pcb q).wakeUp = (s.pcb q).wakeUp

omit [Hardware] in
theorem Wakes.of_empty (h : s.sleepers.arr.size = 0) : s.Wakes s := by
  have hNone (q : Proc) : q ∉ s.contents .sleeping := by
    rw [contents, Array.size_eq_zero_iff.mp h]
    exact List.not_mem_nil
  exact ⟨rfl, fun q hq => hq, fun q hq => absurd hq (hNone q), fun q hq => absurd hq (hNone q)⟩

/-- One round: the root is due and leaves the heap. -/
theorem Wakes.round {root : Proc} {u : Kernel} {shrinkOk : Bool} (h : KernelStart.Sound s)
    (hRemove : s.removeFromHeap shrinkOk = (u, some root)) (hDue : s.Due root)
    (hRest : ((u.enqueProcess .main root).emit (.ready root)).Wakes t) : s.Wakes t := by
  have hPerm : (s.contents .sleeping).Perm (root :: ((u.enqueProcess .main root).emit (.ready root)).contents .sleeping) :=
    (perm_removeFromHeap hRemove).1
  have hNodup := hPerm.nodup (h.settled.placement.placed.nodup .sleeping)
  have hWakeUp (q : Proc) : (((u.enqueProcess .main root).emit (.ready root)).pcb q).wakeUp = (s.pcb q).wakeUp := by
    rw [removeFromHeap_eq hRemove]
    rfl
  have hTicks : ((u.enqueProcess .main root).emit (.ready root)).numTicks = s.numTicks := by
    rw [removeFromHeap_eq hRemove]
    rfl
  have hSame (q : Proc) : ((u.enqueProcess .main root).emit (.ready root)).Due q ↔ s.Due q := by
    rw [Due, Due, hWakeUp, hTicks]
  have hNext (q : Proc) (hq : q ∈ s.contents .sleeping) (hNe : q ≠ root) :
      q ∈ ((u.enqueProcess .main root).emit (.ready root)).contents .sleeping :=
    (List.mem_cons.mp (hPerm.mem_iff.mp hq)).resolve_left hNe
  constructor
  · rw [hRest.clock, clock_emit _ (by simp), removeFromHeap_eq hRemove]
    rfl
  · exact fun q hq => hPerm.mem_iff.mpr (List.mem_cons_of_mem _ (hRest.shrinks q hq))
  · intro q hq hTime
    by_cases hNe : q = root
    · exact fun hStill => (List.nodup_cons.mp hNodup).1 (hNe ▸ hRest.shrinks q hStill)
    · exact hRest.due q (hNext q hq hNe) ((hSame q).mpr hTime)
  · intro q hq hLate
    have hNe : q ≠ root := fun he => hLate (he ▸ hDue)
    obtain ⟨hStill, hAlarm⟩ := hRest.keeps q (hNext q hq hNe) fun hTime => hLate ((hSame q).mp hTime)
    exact ⟨hStill, hAlarm.trans (hWakeUp q)⟩

theorem wakes_wakeSleepers (hCall : label.isClock = true) (h : KernelStart.Sound s) (hOrdered : s.HeapOrdered)
    (shrinkOk : Nat → Bool) (hFuel : s.sleepers.arr.size ≤ fuel) : s.Wakes (s.wakeSleepers shrinkOk fuel) := by
  induction fuel generalizing s with
  | zero => exact .of_empty (Nat.le_zero.mp hFuel)
  | succ fuel ih =>
      unfold wakeSleepers
      split
      · rename_i hEmpty
        exact .of_empty (Nat.le_zero.mp (Array.getElem?_eq_none_iff.mp hEmpty))
      · rename_i root hRoot
        split_ifs with hDue
        · split
          · rename_i u hRemove
            simp [removeFromHeap, hRoot] at hRemove
          · rename_i u proc hRemove
            obtain rfl := removeFromHeap_root hRoot hRemove
            have hEffect : Effect label s ((u.enqueProcess .main proc).emit (.ready proc)) :=
              .wakeSleeper hRoot hDue hRemove hCall
            have hLength := (perm_removeFromHeap hRemove).1.length_eq
            simp only [Array.length_toList, List.length_cons] at hLength
            refine .round h hRemove (BitVec.sle_iff_toInt_le.mp hDue) (ih (h.effects hEffect.one)
              (hOrdered.effect h hEffect) ?_)
            rw [hLength] at hFuel
            exact Nat.le_of_succ_le_succ hFuel
        · have hLate : ¬s.Due root := fun hTime => hDue (BitVec.sle_iff_toInt_le.mpr hTime)
          exact ⟨rfl, fun q hq => hq, fun q hq hTime => absurd hTime (hOrdered.not_due hRoot hLate hq),
            fun q hq _ => ⟨hq, rfl⟩⟩

/-- `wake_waiters` does not concern those who sleep. -/
theorem asleep_wakeWaiters (hCall : label.isClock = true) (h : KernelStart.Sound s) (shrinkOk : Nat → Bool)
    (fuel : Nat) : (s.wakeWaiters shrinkOk fuel).clock = s.clock ∧
      (s.wakeWaiters shrinkOk fuel).sleepers = s.sleepers ∧
      ∀ q ∈ s.contents .sleeping, ((s.wakeWaiters shrinkOk fuel).pcb q).wakeUp = (s.pcb q).wakeUp := by
  induction fuel generalizing s with
  | zero => exact ⟨rfl, rfl, fun _ _ => rfl⟩
  | succ fuel ih =>
      unfold wakeWaiters
      split
      · rename_i u hFind
        obtain rfl := eq_of_findBlockedFrom_none hFind
        exact ⟨rfl, rfl, fun _ _ => rfl⟩
      · rename_i u proc hFind
        have hEffect : Effect label s (u.scheduleProcess proc) := .wakeWaiter hFind hCall
        have hWoken : s.Woken (u.scheduleProcess proc) proc := ⟨_, _, hFind, rfl⟩
        obtain ⟨hClock, hSleepers, -⟩ := hWoken.asleep (h.settled.placement.linked (.sched .waitBlocking)).1
        obtain ⟨hClock', hSleepers', hAlarm⟩ := ih (h.effects hEffect.one)
        refine ⟨hClock'.trans hClock, hSleepers'.trans hSleepers, fun q hq => ?_⟩
        refine (hAlarm q ?_).trans (wakeUp_effect h hEffect hq)
        rw [contents, hSleepers]
        exact hq

omit [Hardware] in
theorem Wakes.of_same {u : Kernel} (hRest : u.Wakes t) (hClock : u.clock = s.clock) (hSleepers : u.sleepers = s.sleepers)
    (hAlarm : ∀ q ∈ s.contents .sleeping, (u.pcb q).wakeUp = (s.pcb q).wakeUp) : s.Wakes t := by
  have hContents : u.contents .sleeping = s.contents .sleeping := by rw [contents, contents, hSleepers]
  have hDue (q : Proc) (hq : q ∈ s.contents .sleeping) : u.Due q ↔ s.Due q := by
    rw [Due, Due, hAlarm q hq, numTicks_of_clock hClock]
  constructor
  · exact hRest.clock.trans hClock
  · exact fun q hq => hContents ▸ hRest.shrinks q hq
  · exact fun q hq hTime => hRest.due q (hContents ▸ hq) ((hDue q hq).mpr hTime)
  · intro q hq hLate
    obtain ⟨hStill, hSame⟩ := hRest.keeps q (hContents ▸ hq) fun hTime => hLate ((hDue q hq).mp hTime)
    exact ⟨hStill, hSame.trans (hAlarm q hq)⟩

/-- A clock trap wakes those who are due and leaves the others asleep. -/
theorem wakes_tick (h : KernelStart.Sound s) (hOrdered : s.HeapOrdered) (o : Outcomes) : s.ticked.Wakes (s.tick o) := by
  have hCall : (Label.clock s.uc o).isClock = true := rfl
  have hTick : Effect (.clock s.uc o) s s.ticked := .ticked hCall
  have hTicked := h.effects hTick.one
  obtain ⟨hClock, hSleepers, hAlarm⟩ := asleep_wakeWaiters hCall hTicked (fun i => o.alloc (2 * i))
    (s.ticked.queues .waitBlocking).length
  have hWaiters := hTicked.effects
    (effects_wakeWaiters hCall s.ticked (fun i => o.alloc (2 * i)) (s.ticked.queues .waitBlocking).length)
  have hWakes := wakes_wakeSleepers hCall hWaiters
    ((hOrdered.effect h hTick).congr (congrArg Heap.arr hSleepers) hAlarm) (fun i => o.alloc (2 * i + 1)) (Nat.le_refl _)
  exact hWakes.of_same hClock hSleepers hAlarm

end WakeSleepers

omit [Hardware] in
/-- The number of clock traps so far. -/
def traps (s : Kernel) : Nat := s.trace.count .tick

omit [Hardware] in
/-- The process sleeps until the clock shows `alarm`. -/
def Sleeps (s : Kernel) (p : Proc) (alarm : Word) : Prop :=
  p ∈ s.contents .sleeping ∧ (s.pcb p).wakeUp = alarm

/-- A step that is no clock trap does not move the clock. -/
theorem clock_of_step (h : KernelStart.Sound s) (hCall : label.isClock = false) (hStep : s.step label = .ok t) :
    t.clock = s.clock := by
  refine h.preserve (I := fun u => u.clock = s.clock) (fun u v hu hOld hEffect => ?_) rfl hStep
    (fun uc o id len _ _ _ hOld => (clock_of_records (records_read _ id len)).trans hOld)
    fun o id _ _ _ => clock_of_records (records_read { s with mode := .user } id _)
  refine Eq.trans ((clock_effect hu hEffect).resolve_right fun hTick => ?_) hOld
  rw [hCall] at hTick
  cases hTick.1

/-- A step that is no clock trap wakes nobody who sleeps. -/
theorem Sleeps.step {alarm : Word} (hSleeps : s.Sleeps p alarm) (h : KernelStart.Sound s)
    (hCall : label.isClock = false) (hStep : s.step label = .ok t) : t.Sleeps p alarm := by
  have hRead {u : Kernel} (hu : KernelStart.Sound u) (id len : Nat) (hOld : u.Sleeps p alarm) :
      (u.read id len).Sleeps p alarm := by
    refine ⟨?_, (wakeUp_of_records (records_read u id len) p).trans hOld.2⟩
    rw [contents_read hu]
    exact hOld.1
  refine h.preserve (I := fun u => u.Sleeps p alarm) (fun u v hu hOld hEffect => ?_) hSleeps hStep
    (fun uc o id len _ _ hSaved hOld => hRead hSaved id len hOld) fun o id _ _ _ => hRead h.user id _ hSleeps
  exact ⟨sleeper_effect hu hEffect hCall hOld.1, (wakeUp_effect hu hEffect hOld.1).trans hOld.2⟩

/-- What happens in a clock trap after the wake-ups does not concern those who
sleep. -/
theorem clock_step {uc : UserContext} {o : Outcomes} (hStep : s.step (.clock uc o) = .ok t) :
    t.clock = (s.tick o).clock ∧ t.contents .sleeping = (s.tick o).contents .sleeping ∧
      ∀ q, (t.pcb q).wakeUp = ((s.tick o).pcb q).wakeUp := by
  simp only [step] at hStep
  split_ifs at hStep
  obtain rfl := Except.ok.inj hStep
  have hSave := Silent.saveUc (s.tick o) uc
  have hRecords := records_preempt ((s.tick o).saveUc uc)
  have hLeave := Silent.leave ((s.tick o).saveUc uc).preempt
  refine ⟨hLeave.clock.trans ((clock_of_records hRecords).trans hSave.clock), ?_, fun q =>
    (hLeave.alarm q).trans ((wakeUp_of_records hRecords q).trans (hSave.alarm q))⟩
  have hSleepers := hLeave.toQuiet.sleepers.trans ((sleepers_of_records hRecords).trans hSave.toQuiet.sleepers)
  have hSame : (s.trapClockHandler uc o).sleepers = (s.tick o).sleepers := hSleepers
  rw [contents, contents, hSame]

theorem effects_tick (s : Kernel) (uc : UserContext) (o : Outcomes) : Effects (.clock uc o) s (s.tick o) :=
  ((Effect.ticked rfl).one.trans (effects_wakeWaiters rfl _ _ _)).trans (effects_wakeSleepers rfl _ _ _)

theorem delay_of_sleeping (hWaiting : s.Waiting) (h : KernelStart.Sound s) (hp : p ∈ s.contents .sleeping) :
    s.Inside p .delay := by
  obtain ⟨kc, hKc, rfl⟩ := hWaiting .sleeping rfl p hp
  exact ⟨h.settled.placement.live_of_mem hp, hKc, fun hRunning => absurd hRunning (ne_running h rfl hp)⟩

theorem inside_effects {kc : KernelContext} (hCall : label.isResume = false) (hWaiting : s.Waiting)
    (h : KernelStart.Sound s) (hInside : s.Inside p kc) (hEffects : Effects label s t) :
    t.Inside p kc ∧ t.Waiting ∧ KernelStart.Sound t := by
  induction hEffects with
  | refl => exact ⟨hInside, hWaiting, h⟩
  | tail _ hLast ih =>
      obtain ⟨hOld, hStill, hSound⟩ := ih
      obtain ⟨others, hOutcome⟩ := hSound.settled.effect hSound.contexts hLast
      refine ⟨(hOutcome.entries.stay p kc hOld).resolve_right fun hContinues => ?_, hStill.effect hSound hLast,
        hSound.effects hLast.one⟩
      simp [hCall] at hContinues

/-- A sleeper that leaves the heap in a clock trap is put on the ready queue. -/
theorem ready_of_woken (hWaiting : s.Waiting) (h : KernelStart.Sound s) (hp : p ∈ s.contents .sleeping)
    (o : Outcomes) (hLeft : p ∉ (s.tick o).contents .sleeping) :
    p ∈ (s.tick o).contents (.queue (.sched .main)) := by
  obtain ⟨hInside, hStill, hTick⟩ :=
    inside_effects rfl hWaiting h (delay_of_sleeping hWaiting h hp) (effects_tick s s.uc o)
  have hRunning : (s.tick o).runningProc = s.runningProc := runningProc_of_cpu (cpu_of_outside (outside_tick s o))
  rcases hStill.place hTick hInside with hMain | hCpu | ⟨a, ha, hAt, hWaits⟩
  · exact hMain
  · rw [contents, onCpu] at hCpu
    split_ifs at hCpu
    · cases hCpu
    · exact absurd ((List.mem_singleton.mp hCpu).trans hRunning) (ne_running h rfl hp)
  · have hPlace : a = .sleeping := by
      cases a with
      | sleeping => rfl
      | queue q =>
          cases q with
          | sched type => cases type <;> cases hWaits
          | _ => simp [KernelContext.WaitsAt] at hWaits
      | _ => cases hWaits
    exact absurd (hPlace ▸ hAt) hLeft

end Kernel

namespace KernelStart

open Kernel

section Runs

variable [Hardware]

theorem heapOrdered_reachable {s : Kernel} (run : system.Reachable s) : s.HeapOrdered := by
  refine invariant (I := HeapOrdered) (fun uctxt early late => ?_)
    (fun _ _ _ h hOrdered hEffect => hOrdered.effect h hEffect) (fun _ id len _ hOrdered => hOrdered.read id len)
    (fun _ _ _ hOrdered _ _ => hOrdered) run
  have hSleepers : (kernelStart uctxt early late).sleepers = (bootPcbs uctxt).sleepers :=
    sleepers_of_records (records_kernelStart uctxt early late)
  unfold HeapOrdered
  rw [hSleepers]
  exact fun j _ hj => absurd hj (Nat.not_lt_zero j)

/-- The counter shows the number of clock traps, up to its width. -/
theorem clock_reachable {s : Kernel} (run : system.Reachable s) : s.numTicks = BitVec.ofNat 32 s.traps := by
  have hTraps {s t : Kernel} (hClock : t.clock = s.clock) (h : s.numTicks = BitVec.ofNat 32 s.traps) :
      t.numTicks = BitVec.ofNat 32 t.traps := by
    have hSame : t.traps = s.traps := congrArg Prod.snd hClock
    rw [numTicks_of_clock hClock, hSame, h]
  refine invariant (I := fun s => s.numTicks = BitVec.ofNat 32 s.traps) (fun uctxt early late => ?_)
    (fun label s t h hOld hEffect => ?_) (fun s id len _ => hTraps (clock_of_records (records_read s id len)))
    (fun _ _ _ hOld _ _ => hOld) run
  · exact hTraps (clock_of_records (records_kernelStart uctxt early late)) rfl
  · rcases clock_effect h hEffect with hSame | ⟨-, hTick⟩
    · exact hTraps hSame hOld
    · refine hTraps hTick ?_
      have hNext : s.ticked.traps = s.traps + 1 := by simp [ticked, traps, emit]
      rw [hNext, BitVec.ofNat_add, ← hOld]
      rfl

/-- After the step to `t` the process is put back on the ready queue by the
`d`-th clock trap, and by none before. -/
def WakesAfter (t : Kernel) (p : Proc) (d : Nat) : Prop :=
  ∀ u, system.Path (fun _ _ => True) t u → u.traps < t.traps + d →
    p ∈ u.contents .sleeping ∧
      ∀ uc o w, u.step (.clock uc o) = .ok w → u.traps + 1 = t.traps + d →
        p ∈ (u.tick o).contents (.queue (.sched .main)) ∧ p ∉ w.contents .sleeping

theorem traps_clock {s t : Kernel} {uc : UserContext} {o : Outcomes} (h : Sound s) (hOrdered : s.HeapOrdered)
    (hStep : s.step (.clock uc o) = .ok t) : t.traps = s.traps + 1 := by
  have hClock : t.clock = s.ticked.clock := (clock_step hStep).1.trans (wakes_tick h hOrdered o).clock
  have hNext : s.ticked.traps = s.traps + 1 := by simp [ticked, traps, emit]
  exact (congrArg Prod.snd hClock).trans hNext

/-- A sleeper wakes at the first tick that its alarm does not lie beyond. -/
theorem wakesAfter_of_alarm {t : Kernel} {p : Proc} {alarm : Word} {d : Nat} (run : system.Reachable t)
    (hSleeps : t.Sleeps p alarm) (hEarly : ∀ k, 0 < k → k < d → ¬alarm.toInt ≤ (t.numTicks + BitVec.ofNat 32 k).toInt)
    (hDue : alarm.toInt ≤ (t.numTicks + BitVec.ofNat 32 d).toInt) : WakesAfter t p d := by
  have hTicks {v : Kernel} (hRun : system.Reachable v) (hLe : t.traps ≤ v.traps) :
      v.ticked.numTicks = t.numTicks + BitVec.ofNat 32 (v.traps - t.traps + 1) := by
    have hNow : v.ticked.numTicks = BitVec.ofNat 32 v.traps + BitVec.ofNat 32 1 := by
      rw [← clock_reachable hRun]
      rfl
    rw [hNow, clock_reachable run, ← BitVec.ofNat_add, ← BitVec.ofNat_add, ← Nat.add_assoc, Nat.add_sub_cancel' hLe]
  have hKept {v : Kernel} (path : system.Path (fun _ _ => True) t v) :
      t.traps ≤ v.traps ∧ (v.traps < t.traps + d → v.Sleeps p alarm) := by
    refine path.invariant (I := fun v => t.traps ≤ v.traps ∧ (v.traps < t.traps + d → v.Sleeps p alarm)) run
      ⟨Nat.le_refl _, fun _ => hSleeps⟩ fun v label x hRun hOld _ hStep => ?_
    have hv := sound_reachable hRun
    cases hCall : label.isClock with
    | false =>
        have hSame : x.traps = v.traps := congrArg Prod.snd (clock_of_step hv hCall hStep)
        rw [hSame]
        exact ⟨hOld.1, fun hLt => (hOld.2 hLt).step hv hCall hStep⟩
    | true =>
        cases label with
        | clock uc o =>
            have hOrdered := heapOrdered_reachable hRun
            rw [traps_clock hv hOrdered hStep]
            refine ⟨Nat.le_succ_of_le hOld.1, fun hLt => ?_⟩
            obtain ⟨hMem, hAlarm⟩ := hOld.2 (Nat.lt_of_succ_lt hLt)
            have hLate : ¬v.ticked.Due p := by
              rw [Due, hTicks hRun hOld.1, show (v.ticked.pcb p).wakeUp = alarm from hAlarm]
              exact hEarly _ (Nat.succ_pos _) (by omega)
            obtain ⟨hStill, hSame⟩ := (wakes_tick hv hOrdered o).keeps p hMem hLate
            obtain ⟨-, hContents, hAlarms⟩ := clock_step hStep
            exact ⟨hContents ▸ hStill, (hAlarms p).trans (hSame.trans hAlarm)⟩
        | _ => cases hCall
  intro u path hLt
  obtain ⟨hLe, hAsleep⟩ := hKept path
  have hRun := path.reachable run
  have hu := sound_reachable hRun
  have hOrdered := heapOrdered_reachable hRun
  obtain ⟨hMem, hAlarm⟩ := hAsleep hLt
  refine ⟨hMem, fun uc o w hStep hLast => ?_⟩
  have hTime : u.ticked.Due p := by
    rw [Due, hTicks hRun hLe, show (u.ticked.pcb p).wakeUp = alarm from hAlarm,
      show u.traps - t.traps + 1 = d by omega]
    exact hDue
  have hLeft := (wakes_tick hu hOrdered o).due p hMem hTime
  rw [(clock_step hStep).2.1]
  exact ⟨ready_of_woken (waiting_reachable hRun) hu hMem o hLeft, hLeft⟩

/-- A call of `Delay` that succeeds puts the caller to sleep. -/
theorem sleeps_delay {s t : Kernel} {uc : UserContext} {o : Outcomes} (hPos : 0 < (uc.regs 0).toInt)
    (hStep : s.step (.syscall .delay uc o) = .ok t) (hMode : t.mode = .resuming) :
    t.clock = s.clock ∧ t.Sleeps s.runningProc (s.numTicks + uc.regs 0) := by
  simp only [step] at hStep
  split_ifs at hStep with hUser
  obtain ⟨u, hDispatch, hLeave⟩ := Transition.bind_eq_ok.mp hStep
  obtain rfl := Except.ok.inj hLeave
  obtain rfl := Except.ok.inj hDispatch
  have hOut {v : Kernel} (hSame : v.mode = s.mode) (hResumes : v.leave.mode = .resuming) : False := by
    rw [(Quiet.leave v).mode, hSame, hUser.1] at hResumes
    cases hResumes
  unfold kernelDelay at hMode ⊢
  dsimp only at hMode ⊢
  rw [reg_saveUc] at hMode ⊢
  rw [if_neg (by omega)] at hMode ⊢
  cases hSleep : (s.saveUc uc).putToSleep (s.saveUc uc).runningProc (uc.regs 0) (o.alloc 0) with
  | mk parked ok =>
      rw [hSleep] at hMode
      cases ok with
      | false =>
          have hParked : parked.mode = s.mode :=
            (mode_of_cpu (cpu_of_outside (outside_fst (outside_putToSleep (s.saveUc uc) _ _ _) hSleep)) :)
          exact (hOut (v := parked.ret errorCode) hParked hMode).elim
      | true =>
          have hAdd := putToSleep_eq hSleep
          have hLeave := Silent.leave ((parked.ret 0).switchAway .delay)
          have hRecords := records_switchAway (parked.ret 0) .delay
          have hRet := Silent.ret parked 0
          refine ⟨?_, ?_, ?_⟩
          · exact hLeave.clock.trans ((clock_of_records hRecords).trans (hRet.clock.trans
              ((Steady.putToSleep hSleep).clock.trans (Silent.saveUc s uc).clock)))
          · have hSleepers : ((parked.ret 0).switchAway .delay).leave.sleepers = parked.sleepers :=
              hLeave.toQuiet.sleepers.trans ((sleepers_of_records hRecords).trans hRet.toQuiet.sleepers)
            rw [contents, hSleepers]
            exact (perm_addToHeap hAdd).1.mem_iff.mpr List.mem_cons_self
          · refine (hLeave.alarm _).trans ((wakeUp_of_records hRecords _).trans ((hRet.alarm _).trans ?_))
            rw [addToHeap_eq hAdd]
            simp [modifyPcb, saveUc]

omit [Hardware] in
theorem toInt_ofNat_of_lt {k : Nat} (hk : k < 2 ^ 31) : (BitVec.ofNat 32 k).toInt = k := by
  have hToNat : (BitVec.ofNat 32 k).toNat = k := by
    rw [BitVec.toNat_ofNat]
    omega
  rw [BitVec.toInt_eq_toNat_of_lt (by rw [hToNat]; omega), hToNat]

omit [Hardware] in
/-- Signed addition of a positive number, with the overflow of the code. -/
theorem toInt_add_ofNat (n : Word) {k : Nat} (hk : k < 2 ^ 31) :
    (n + BitVec.ofNat 32 k).toInt = if n.toInt + k < 2 ^ 31 then n.toInt + k else n.toInt + k - 2 ^ 32 := by
  have hLow := BitVec.le_toInt n
  have hHigh := BitVec.toInt_lt (x := n)
  rw [BitVec.toInt_add, toInt_ofNat_of_lt hk]
  simp only [Int.bmod]
  norm_num at hLow hHigh ⊢
  split_ifs <;> omega

end Runs

/-- `Delay` for `d` ticks: as long as `num_ticks + d` does not overflow, or the
counter itself overflows at the next tick, the caller is woken by the `d`-th
clock trap. Otherwise the first clock trap wakes it, which is too early. -/
theorem delay_wakes [Hardware] {s t : Kernel} {uc : UserContext} {o : Outcomes} (run : system.Reachable s)
    (hPos : 0 < (uc.regs 0).toInt) (hStep : s.step (.syscall .delay uc o) = .ok t) (hSlept : t.mode = .resuming) :
    (s.numTicks.toInt + (uc.regs 0).toInt ≤ 2 ^ 31 - 1 ∨ s.numTicks.toInt = 2 ^ 31 - 1 →
      WakesAfter t s.runningProc (uc.regs 0).toInt.toNat) ∧
    (¬(s.numTicks.toInt + (uc.regs 0).toInt ≤ 2 ^ 31 - 1 ∨ s.numTicks.toInt = 2 ^ 31 - 1) →
      1 < (uc.regs 0).toInt ∧ WakesAfter t s.runningProc 1) := by
  obtain ⟨hClock, hSleeps⟩ := sleeps_delay hPos hStep hSlept
  have hReached := reachable_step run hStep
  obtain ⟨d, hd⟩ : ∃ d : Nat, (uc.regs 0).toInt = d := ⟨_, (Int.toNat_of_nonneg hPos.le).symm⟩
  have hBound : d < 2 ^ 31 := by
    have hHigh := BitVec.toInt_lt (x := uc.regs 0)
    norm_num at hHigh
    omega
  have hDelay : uc.regs 0 = BitVec.ofNat 32 d := BitVec.eq_of_toInt_eq (hd.trans (toInt_ofNat_of_lt hBound).symm)
  rw [← numTicks_of_clock hClock] at hSleeps ⊢
  rw [hd, Int.toNat_natCast]
  rw [hDelay] at hSleeps
  refine ⟨fun hFits => wakesAfter_of_alarm hReached hSleeps (fun k hk hkd => ?_) (le_refl _), fun hOver => ?_⟩
  · rw [toInt_add_ofNat _ hBound, toInt_add_ofNat _ (by omega)]
    split_ifs <;> omega
  · have hHigh := BitVec.toInt_lt (x := t.numTicks)
    norm_num at hHigh
    refine ⟨by omega, wakesAfter_of_alarm hReached hSleeps (fun k hk hkd => by omega) ?_⟩
    rw [toInt_add_ofNat _ hBound, toInt_add_ofNat _ (by omega)]
    split_ifs <;> omega

open Sample in
/-- A delay of two ticks, called at tick one. -/
theorem delay_wakes_two : ∃ s t : Kernel, system.Reachable s ∧ s.numTicks = 1 ∧
    s.step (call .delay [2]) = .ok t ∧ t.mode = .resuming ∧ WakesAfter t s.runningProc 2 := by
  obtain ⟨s, run, hTicks, t, hStep, hMode⟩ := Transition.System.exists_reachable
    (P := fun s : Kernel => s.numTicks = 1 ∧ ∃ t ∈ (s.step (call .delay [2])).toOption, t.mode = .resuming)
    turn initial_booted (by decide +kernel)
  rw [Transition.mem_toOption] at hStep
  refine ⟨s, t, run, hTicks, hStep, hMode, (delay_wakes run (by decide) hStep hMode).1 (Or.inl ?_)⟩
  rw [hTicks]
  decide

open Sample in
/-- A delay of `INT_MAX` ticks, called at tick one, ends at the next tick. -/
theorem delay_wakes_early : ∃ s t u w : Kernel, system.Reachable s ∧ s.numTicks = 1 ∧
    s.step (call .delay [2147483647]) = .ok t ∧ t.mode = .resuming ∧
    system.Path (fun _ _ => True) t u ∧ u.traps = t.traps ∧ u.step (.clock (context []) outcomes) = .ok w ∧
    s.runningProc ∈ (u.tick outcomes).contents (.queue (.sched .main)) ∧
    ¬WakesAfter t s.runningProc 2147483647 := by
  obtain ⟨s, run, hTicks, t, hStep, hMode, u, hPath, hSame, w, hClock, hReady, hAwake⟩ :=
    Transition.System.exists_reachable
      (P := fun s : Kernel => s.numTicks = 1 ∧ ∃ t ∈ (s.step (call .delay [2147483647])).toOption,
        t.mode = .resuming ∧ ∃ u ∈ system.run (fun _ _ => True) t [.resume outcomes], u.traps = t.traps ∧
          ∃ w ∈ (u.step (.clock (context []) outcomes)).toOption,
            s.runningProc ∈ (u.tick outcomes).contents (.queue (.sched .main)) ∧
            w.traps = t.traps + 1 ∧ s.runningProc ∉ w.contents .sleeping)
      turn initial_booted (by decide +kernel)
  rw [Transition.mem_toOption] at hStep hClock
  have path : system.Path (fun _ _ => True) t u := .run hPath
  refine ⟨s, t, u, w, run, hTicks, hStep, hMode, path, hSame, hClock, hReady, fun hWakes => ?_⟩
  have hLast : system.step u (.clock (context []) outcomes) = .ok w := hClock
  exact hAwake.2 (hWakes w (.step path trivial hLast) (by rw [hAwake.1]; omega)).1

end KernelStart
end Yalnix
