import Yalnix.Process.KernelStacks
import Yalnix.Process.States

/-! What becomes of a process without a kernel stack. It keeps its place in the ready
queue, the clock brings it to the front, and no process of the machine runs ever after. -/
namespace Yalnix

open Hardware Fifo Transition

namespace Agenda

/-- How often the process has had its turn. -/
def turns (g : Agenda) (p : Proc) : Nat := (serves g.log).count p

variable {g h : Agenda} {p : Proc}

@[simp] theorem turns_mark (q : Proc) (state : ProcessState) : (g.mark q state).turns p = g.turns p := by
  rw [turns, mark_log, turns]

theorem turns_ready (q : Proc) : (g.ready q).turns p = g.turns p := by
  unfold ready
  split_ifs
  · rfl
  · simp [turns]

theorem Readies.turns (hReadies : Readies g h) (p : Proc) : h.turns p = g.turns p := by
  induction hReadies with
  | refl => rfl
  | tail _ hLast ih =>
      obtain ⟨q, rfl⟩ := hLast
      rw [turns_ready, ih]

/-- Whoever has a turn runs. -/
theorem turns_dispatch (g : Agenda) (n p : Proc) : (g.dispatch n).turns p = g.turns p ∨ n = p := by
  by_cases hp : n = p
  · exact Or.inr hp
  · refine Or.inl ?_
    unfold dispatch turns
    split_ifs
    · simp
    · simp [hp]

end Agenda

namespace Kernel

variable [Hardware] {s t u : Kernel} {label : Label} {p : Proc}

theorem turns_parks {kc : KernelContext} (hParks : Parks label s kc t) : t.agenda.turns p = s.agenda.turns p := by
  cases hParks with
  | sleep hSleep => rw [agenda_putToSleep hSleep, Agenda.turns_mark]
  | wait => rw [agenda_waitBlockProcess, Agenda.turns_mark]
  | lock hKc hAcquire => rw [agenda_fst (agenda_acquire s _ _ _) hAcquire]
  | @cvar _ cvarId lockId hCall hWait =>
      unfold waitCvar at hWait
      split_ifs at hWait
      · cases hWait
      split at hWait
      · cases hWait
      · rename_i released hRelease
        obtain ⟨rfl, -⟩ := Prod.mk.inj hWait
        have hReadies := readies_release s lockId s.runningProc true
        rw [hRelease] at hReadies
        rw [← hReadies.turns p]
        rfl
  | pipe => rw [agenda_pipeBlock, Agenda.turns_mark]
  | ttyRead => rw [agenda_ttyReadBlock, Agenda.turns_mark]
  | ttyWrite => rw [agenda_ttyWriteBlock, Agenda.turns_mark]

/-- A turn of the process, if there is one, makes it the running process. -/
theorem turns_effect (hEffect : Effect label s t) (p : Proc) :
    t.agenda.turns p = s.agenda.turns p ∨ t.runningProc = p := by
  have hSame (hAgenda : t.agenda = s.agenda) : t.agenda.turns p = s.agenda.turns p ∨ t.runningProc = p :=
    Or.inl (congrArg (fun g : Agenda => g.turns p) hAgenda)
  have hReadies (h : Agenda.Readies s.agenda t.agenda) : t.agenda.turns p = s.agenda.turns p ∨ t.runningProc = p :=
    Or.inl (h.turns p)
  have hTurn {g : Agenda} {n : Proc} (hBefore : g.turns p = s.agenda.turns p) (hAfter : t.agenda = (g.dispatch n).run n) :
      t.agenda.turns p = s.agenda.turns p ∨ t.runningProc = p := by
    have hRunning : t.runningProc = n := congrArg Agenda.runningProc hAfter
    rw [hAfter, hRunning, ← hBefore]
    exact Agenda.turns_dispatch g n p
  cases hEffect with
  | quiet hQuiet => exact hSame (agenda_quiet hQuiet.toQuiet)
  | ticked hCall => exact hSame (agenda_quiet (Quiet.ticked s))
  | block hUser hParks hQuiet hCall =>
      exact hTurn ((congrArg (fun g : Agenda => g.turns p) (agenda_quiet hQuiet.toQuiet)).trans (turns_parks hParks))
        (agenda_switchAway _ _)
  | sleepless hUser hSleep =>
      refine Or.inl ?_
      rw [agenda_putToSleep_fail hSleep, Agenda.turns_mark, Agenda.turns_mark]
  | preempt hMode =>
      obtain ⟨n, hAgenda⟩ := agenda_preempt s
      exact hTurn (Agenda.turns_ready _) hAgenda
  | @exit _ code hUser hExit =>
      obtain ⟨-, marked, detached, rfl, hQuiet, rfl⟩ := kernelExit_cases hExit
      have hMarked : (s.getNextProcess.1.modifyPcb s.runningProc fun p =>
          { p with exitCode := code, state := .exited }).agenda =
          (s.agenda.dispatch s.getNextProcess.2).mark s.runningProc .exited := by
        rw [← agenda_getNextProcess]
        exact agenda_mark rfl
      have hAgenda : (detached.fullContextSwitch none s.getNextProcess.2).agenda.turns p =
          (s.agenda.dispatch s.getNextProcess.2).turns p := by
        rw [agenda_fullContextSwitch, agenda_quiet hQuiet, hMarked]
        exact Agenda.turns_mark _ _
      rw [hAgenda]
      exact Agenda.turns_dispatch s.agenda s.getNextProcess.2 p
  | fork hUser hFork hCall =>
      obtain ⟨created, copied, hCreate, hCopied, hResult⟩ := kernelFork_cases hFork
      have hStart : copied.agenda = s.agenda.mark s.numPcbs .ready :=
        (agenda_quiet hCopied).trans (agenda_createNewPcb hCreate)
      refine Or.inl ?_
      rcases hResult with rfl | ⟨cloned, hCloned, hResult⟩
      · have hSame : (copied.freePcb s.numPcbs).agenda = copied.agenda :=
          (agenda_emit _ fun _ => rfl).trans (agenda_modifyPcb rfl)
        rw [hSame, hStart, Agenda.turns_mark]
      · have hReady : cloned.agenda.turns p = s.agenda.turns p := by
          rw [agenda_quiet hCloned, agenda_scheduleProcess, Agenda.turns_ready, hStart, Agenda.turns_mark]
        rcases hResult with rfl | rfl
        · exact hReady
        · have hSame : (cloned.modifyPcb s.numPcbs fun p => { p with kc := some .fork }).agenda = cloned.agenda :=
            agenda_modifyPcb rfl
          rwa [hSame]
  | reap _ _ hFound => exact hSame (agenda_quiet (Quiet.findExitedChild hFound))
  | newLock => exact hSame (agenda_newLock s _ _ _)
  | newCvar => exact hSame rfl
  | newPipe => exact hSame (agenda_newPipe s _ _)
  | deleteLock => exact hSame (agenda_deleteLock s _ _)
  | deleteCvar => exact hSame (agenda_deleteCvar s _ _)
  | pipeReclaim => exact hSame (agenda_pipeReclaim s _)
  | acquire hUser hAcquire => exact hSame (agenda_fst (agenda_acquire s _ _ _) hAcquire)
  | @release _ id hUser hCall hRelease =>
      have hSteps := readies_release s id s.runningProc false
      rw [hRelease] at hSteps
      exact hReadies hSteps
  | @signal popped id waiter hPop =>
      refine hReadies ?_
      rw [← agenda_fst (agenda_popCvar s id) hPop]
      exact readies_reacquire popped waiter
  | pipeRead => exact hSame (agenda_emit _ fun _ => rfl)
  | pipeWrite hPipe hGrown =>
      refine hReadies (Relation.ReflTransGen.trans (Agenda.Readies.refl_of ?_) (readies_wakeReaders _ _ _))
      exact agenda_emit _ fun _ => rfl
  | @wakeWaiter found proc shrinkOk hFind hCall =>
      refine hReadies (.single ⟨proc, ?_⟩)
      rw [agenda_scheduleProcess, ← agenda_fst (agenda_findWaiter s shrinkOk) hFind]
  | @wakeSleeper removed root proc shrinkOk hRoot hDue hRemove hCall =>
      have hLog : ((removed.enqueProcess .main proc).emit (.ready proc)).log (.sched .main) =
          s.log (.sched .main) ++ [.join proc] := by
        rw [removeFromHeap_eq hRemove]
        exact log_emit _ _ _
      refine Or.inl ?_
      show (serves (((removed.enqueProcess .main proc).emit (.ready proc)).log (.sched .main))).count p = _
      rw [hLog, serves_append, serves_join, List.append_nil]
      rfl
  | transmitted => exact hReadies (readies_ttyTransmitDone s _)
  | received => exact hReadies (readies_ttyReceiveDone s _ _ _)
  | resumed => exact hSame rfl
  | written => exact hSame (agenda_ttyWriteReturn { s with mode := .user } _)

/-- The process has no context, and since it had this many turns, it runs if it had another. -/
structure Doomed (p : Proc) (before : Nat) (s : Kernel) : Prop where
  live : s.Live p
  parked : s.Parked p none
  turns : s.agenda.turns p = before ∨ s.runningProc = p

/-- It is not the process that makes the step. -/
theorem Doomed.other {before : Nat} (h : Doomed p before s) (hStep : s.step label = .ok t) :
    ¬(p = s.runningProc ∧ label.isResume = true) := by
  rintro ⟨rfl, hResume⟩
  cases label with
  | resume o => simp [Kernel.step, resume, h.parked.1, h.parked.2 rfl] at hStep
  | _ => cases hResume

theorem Doomed.step {before : Nat} (h : Doomed p before s) (hSound : KernelStart.Sound s)
    (hStep : s.step label = .ok t) : Doomed p before t := by
  have hLt : p < s.numPcbs := h.live.2.1
  have hTurns := Parked.preserve (I := fun u => u.agenda.turns p = before ∨ u.runningProc = p) ?_ ?_
    (fun _ _ hTurns => hTurns) hSound hLt h.parked (h.other hStep) h.turns hStep
  · refine ⟨live_step hSound h.live ?_ hStep, hTurns.2.1, hTurns.2.2⟩
    rintro hExits rfl
    have hMode := h.parked.2 rfl
    cases label with
    | syscall | math | illegal | memory => simp [Kernel.step, inUser, hMode] at hStep
    | _ => cases hExits
  · intro label u v _ _ hParked hAside hEffect hBefore
    rcases turns_effect hEffect p with hSame | hRunning
    · rcases hBefore with hBefore | hRunning
      · exact Or.inl (hSame.trans hBefore)
      · obtain ⟨hMode, hResume⟩ := hAside hRunning.symm
        refine Or.inr ?_
        cases cpu_effect hEffect with
        | same hCpu => exact (runningProc_of_cpu hCpu).trans hRunning
        | fork hUser | switch hUser => simp_all [inUser]
        | resume hCall => simp [hResume] at hCall
    · exact Or.inr hRunning
  · intro u id len _ hBefore
    rw [show (u.read id len).agenda = u.agenda from agenda_read u id len]
    obtain ⟨ttys, lines, trace, hEq⟩ := read_eq u id len
    rw [hEq]
    exact hBefore

/-- While a switch is not complete, only the kernel heap may move. -/
theorem heap_of_resuming (hMode : s.mode = .resuming) (hResume : ∀ o, label ≠ .resume o)
    (hStep : s.step label = .ok t) : ∃ addr, label = .heap addr := by
  cases label with
  | heap addr => exact ⟨addr, rfl⟩
  | resume o => exact absurd rfl (hResume o)
  | _ => simp [Kernel.step, inUser, hMode] at hStep

omit [Hardware] in
theorem turns_eq (s : Kernel) (p : Proc) : s.agenda.turns p = (dispatches s.idleProc s.trace).count p := by
  rw [← serves_dispatches, ← log_main]
  rfl

end Kernel

namespace KernelStart

open Kernel

/-- A process that was put on the ready queue without a kernel stack stops the machine.
It is still queued, and no more clock traps have passed than there were processes in front
of it, or it was switched to, cannot be continued, and no other process can run. -/
theorem stackless_stops [Hardware] {s t : Kernel} {p : Proc} {ahead behind : List Proc} (run : system.Reachable s)
    (hPos : 0 < kStackVpns) (hReady : s.contents (.queue (.sched .main)) = ahead ++ p :: behind)
    (hStack : ¬s.HasStack p) (path : system.Path (fun _ _ => True) s t) :
    p ∈ t.contents (.queue (.sched .main)) ∧ t.traps ≤ s.traps + ahead.length ∨
      t.mode = .resuming ∧ t.runningProc = p ∧ (∀ o, t.step (.resume o) = .error (.noContext p)) ∧
        ∀ label u, t.step label = .ok u → ∃ addr, label = .heap addr := by
  have hSound := sound_reachable run
  have hIn : p ∈ s.contents (.queue (.sched .main)) := by simp [hReady]
  have hLive := hSound.settled.placement.live_of_mem hIn
  have hNone : (s.pcb p).kc = none := by
    by_contra hSaved
    exact hStack (((stacked_reachable hPos run).saved p hLive).mp hSaved)
  have hFirst : Doomed p (s.agenda.turns p) s := by
    refine ⟨hLive, ⟨hNone, ?_⟩, Or.inl rfl⟩
    rintro rfl
    have hCpu : s.runningProc ∈ s.contents .cpu := by simp [contents, onCpu, if_neg hLive.1]
    exact absurd (hSound.settled.placement.placed.unique hIn hCpu) (by simp)
  have hDoomed : Doomed p (s.agenda.turns p) t := path.invariant run hFirst
    fun _ _ _ hRun hDoomed _ hStep => hDoomed.step (sound_reachable hRun) hStep
  by_cases hRunning : t.runningProc = p
  · right
    have hLast := path.reachable run
    have hStackless : ¬t.HasStack p := fun hStack =>
      ((stacked_reachable hPos hLast).saved p hDoomed.live).mpr hStack hDoomed.parked.1
    have hMode := hDoomed.parked.2 hRunning.symm
    have hResume (o : Outcomes) : t.step (.resume o) = .error (.noContext p) :=
      (no_context_iff hLast hPos).mpr ⟨hMode, hRunning, hDoomed.live, hStackless⟩
    refine ⟨hMode, hRunning, hResume, fun label u hStep => heap_of_resuming hMode ?_ hStep⟩
    rintro o rfl
    rw [hResume] at hStep
    cases hStep
  · left
    obtain ⟨during, hTrace, hOrder⟩ := dispatch_order run path
    obtain ⟨same, hSame, hTurn⟩ := bounded_waiting run hReady path
    obtain rfl : during = same := List.append_cancel_left (hTrace.symm.trans hSame)
    obtain ⟨-, -, hIdle, -⟩ := ready_window run path
    -- the process had no turn, as it does not run
    have hCount := hDoomed.turns.resolve_right hRunning
    have hNot : p ∉ dispatches s.idleProc during := by
      rw [turns_eq, turns_eq, hIdle, hTrace, dispatches, List.filterMap_append, List.count_append] at hCount
      exact List.count_eq_zero.mp (Nat.add_eq_left.mp hCount)
    refine ⟨?_, (hTurn.resolve_left fun hDispatched => hNot ?_).2⟩
    · have hEither : p ∈ dispatches s.idleProc during ++ t.contents (.queue (.sched .main)) := by
        rw [← hOrder]
        exact List.mem_append_left _ hIn
      exact (List.mem_append.mp hEither).resolve_left hNot
    · exact List.mem_filterMap.mpr ⟨_, hDispatched, if_neg hLive.1⟩

open Sample in
/-- Three children are in front of the one whose stack could not be cloned. At the fourth
clock trap the machine stops. -/
theorem stackless_stops_child : ∃ s t : Kernel, system.Reachable s ∧
    s.contents (.queue (.sched .main)) = [2, 3, 4, 5] ∧ t.traps = s.traps + 4 ∧ t.runningProc = 5 ∧
    ∀ o, t.step (.resume o) = .error (.noContext 5) := by
  obtain ⟨s, run, hReady, hBlank, hPath⟩ : ∃ s : Kernel, system.Reachable s ∧
      s.contents (.queue (.sched .main)) = [2, 3, 4, 5] ∧ (s.mem.ksPt 5 0).valid = false ∧
      (system.run (fun _ _ => True) s (turn ++ turn ++ turn ++ [.clock (context []) outcomes])).any
        (fun t => decide (t.traps = s.traps + 4)) = true :=
    ⟨after (lastFrames ++ [call .fork []]), reachable_after (by decide +kernel), by decide +kernel, by decide +kernel,
      by decide +kernel⟩
  obtain ⟨t, hRun, hEnd⟩ := (Option.any_eq_true _ _).mp hPath
  have hTraps : t.traps = s.traps + 4 := of_decide_eq_true hEnd
  have hStack : ¬s.HasStack 5 := fun hAll => by simpa [hBlank] using hAll 0 le_rfl (by decide)
  rcases stackless_stops run (by decide) (show s.contents (.queue (.sched .main)) = [2, 3, 4] ++ 5 :: [] from hReady)
    hStack (.run hRun) with ⟨-, hFew⟩ | ⟨-, hRunning, hStops, -⟩
  · have hFew : t.traps ≤ s.traps + 3 := hFew
    omega
  · exact ⟨s, t, run, hReady, hTraps, hRunning, hStops⟩

end KernelStart
end Yalnix
