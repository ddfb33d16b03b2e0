import Yalnix.Process.Custody
import Yalnix.Process.Delay
import Yalnix.Process.History
import Yalnix.Process.Turns

/-! The order of dispatch over any part of a run. The ready queue is first come, first
served, and as every clock trap dispatches somebody, a ready process waits for no more
clock traps than there are processes in front of it. -/
namespace Yalnix

open Hardware Fifo Transition

/-- The processes that became ready, in order. -/
def readied (events : List Event) : List Proc :=
  events.filterMap fun
    | .ready p => some p
    | _ => none

/-- The processes that were dispatched, in order, apart from the idle process. -/
def dispatches (idle : Proc) (events : List Event) : List Proc :=
  events.filterMap fun
    | .dispatched p => if p = idle then none else some p
    | _ => none

def Event.isDispatch : Event → Bool
  | .dispatched _ => true
  | _ => false

section Logs

variable {idle : Proc} {events : List Event}

theorem joins_turns (idle : Proc) (events : List Event) :
    joins (events.filterMap (Event.turn idle)) = readied events := by
  rw [joins, readied, List.filterMap_filterMap]
  congr 1
  funext e
  cases e with
  | dispatched p => by_cases hp : p = idle <;> simp [Event.turn, hp]
  | _ => rfl

theorem serves_dispatches (idle : Proc) (events : List Event) :
    serves (events.filterMap (Event.turn idle)) = dispatches idle events := serves_turns idle events

/-- When the idle process has no turn, each dispatch is one of somebody else. -/
theorem countP_dispatch (hIdle : Entry.idle ∉ events.filterMap (Event.turn idle)) :
    events.countP Event.isDispatch = (dispatches idle events).length := by
  induction events with
  | nil => rfl
  | cons e events ih =>
      cases e with
      | dispatched p =>
          by_cases hp : p = idle
          · simp [Event.turn, hp] at hIdle
          · simp only [List.filterMap_cons, Event.turn, if_neg hp, List.mem_cons, not_or] at hIdle
            rw [List.countP_cons_of_pos rfl, ih hIdle.2]
            simp [dispatches, hp]
      | _ => simpa [dispatches, Event.isDispatch, Event.turn] using ih (by simpa [Event.turn] using hIdle)

end Logs

namespace Kernel

variable {s t : Kernel} {label : Label}

theorem trace_getNextProcess (s : Kernel) :
    s.getNextProcess.1.trace = s.trace ++ [.dispatched s.getNextProcess.2] := by
  have hDeque : s.dequeProcess.1.trace = s.trace := by
    unfold dequeProcess
    dsimp only
    split
    · rfl
    · split <;> rfl
  unfold getNextProcess
  split <;> rename_i hFound <;> rw [hFound] at hDeque <;> exact congrArg (· ++ _) hDeque

variable [Hardware]

omit [Hardware] in
theorem log_main (s : Kernel) : s.log (.sched .main) = s.trace.filterMap (Event.turn s.idleProc) :=
  foldl_enter [] fun e _ log => enter_main e log

/-- The history of the ready queue leads to what it holds now. -/
theorem served_main (h : KernelStart.Sound s) :
    Serves (s.trace.filterMap (Event.turn s.idleProc)) (s.contents (.queue (.sched .main))) := by
  have hServes := h.settled.placement.served (.sched .main) rfl
  rwa [show s.shape.log = s.log from rfl, log_main] at hServes

/-- The history in which the clock handler picks the next process. -/
theorem trace_preempt (s : Kernel) : ∃ p, s.preempt.trace = (s.scheduleProcess s.runningProc).trace ++ [.dispatched p] := by
  refine ⟨(s.scheduleProcess s.runningProc).getNextProcess.2, ?_⟩
  rw [← trace_getNextProcess]
  unfold preempt
  dsimp only
  split_ifs <;> rfl

/-- A clock trap dispatches somebody. -/
theorem dispatch_clock {uc : UserContext} {o : Outcomes} (hStep : s.step (.clock uc o) = .ok t) :
    s.trace.countP Event.isDispatch < t.trace.countP Event.isDispatch := by
  simp only [step] at hStep
  split_ifs at hStep
  obtain rfl := Except.ok.inj hStep
  have hTick : s.trace <+: (s.tick o).trace := by
    have hEffects := effects_tick s uc o
    generalize s.tick o = u at hEffects
    induction hEffects with
    | refl => exact List.prefix_rfl
    | tail _ hLast ih => exact ih.trans (lock_effect hLast).grows
  obtain ⟨p, hPicked⟩ := trace_preempt ((s.tick o).saveUc uc)
  have hReady : s.trace <+: (((s.tick o).saveUc uc).scheduleProcess ((s.tick o).saveUc uc).runningProc).trace :=
    hTick.trans ((Lockless.refl ((s.tick o).saveUc uc)).scheduleProcess _).grows
  have hEnd : (s.trapClockHandler uc o).trace = (((s.tick o).saveUc uc).scheduleProcess
      ((s.tick o).saveUc uc).runningProc).trace ++ [.dispatched p] := by
    rw [← hPicked]
    unfold trapClockHandler leave
    split <;> rfl
  rw [hEnd, List.countP_append]
  exact Nat.lt_succ_of_le (hReady.sublist.countP_le)

/-- No more clock traps than dispatches. -/
theorem traps_le_step (run : KernelStart.system.Reachable s) (hStep : s.step label = .ok t) :
    t.traps + s.trace.countP Event.isDispatch ≤ s.traps + t.trace.countP Event.isDispatch := by
  have hSound := KernelStart.sound_reachable run
  have hMore := (trace_step hSound hStep).sublist.countP_le (p := Event.isDispatch)
  cases label with
  | clock uc o =>
      have hTraps := KernelStart.traps_clock hSound (KernelStart.heapOrdered_reachable run) hStep
      have hDispatch := dispatch_clock hStep
      omega
  | _ =>
      have hSame : t.traps = s.traps := congrArg Prod.snd (clock_of_step hSound rfl hStep)
      omega

end Kernel

namespace KernelStart

open Kernel

/-- The history of a part of a run, as the ready queue sees it. -/
theorem ready_window [Hardware] {s t : Kernel} (run : system.Reachable s)
    (path : system.Path (fun _ _ => True) s t) : ∃ during,
    t.trace = s.trace ++ during ∧ t.idleProc = s.idleProc ∧
      Serves (s.trace.filterMap (Event.turn s.idleProc)) (s.contents (.queue (.sched .main))) ∧
      Serves (s.trace.filterMap (Event.turn s.idleProc) ++ during.filterMap (Event.turn s.idleProc))
        (t.contents (.queue (.sched .main))) ∧
      t.traps + s.trace.countP Event.isDispatch ≤ s.traps + t.trace.countP Event.isDispatch := by
  obtain ⟨⟨during, hTrace⟩, hIdle, hTraps⟩ : s.trace <+: t.trace ∧ t.idleProc = s.idleProc ∧
      t.traps + s.trace.countP Event.isDispatch ≤ s.traps + t.trace.countP Event.isDispatch := by
    refine path.invariant (I := fun u => s.trace <+: u.trace ∧ u.idleProc = s.idleProc ∧
      u.traps + s.trace.countP Event.isDispatch ≤ s.traps + u.trace.countP Event.isDispatch) run
      ⟨List.prefix_rfl, rfl, le_rfl⟩ ?_
    rintro u label v hRun ⟨hBefore, hIdle, hTraps⟩ - hStep
    have hSound := sound_reachable hRun
    have hMore := traps_le_step hRun hStep
    exact ⟨hBefore.trans (trace_step hSound hStep), (outlived_step hSound hStep).idle.trans hIdle, by omega⟩
  have hLast := served_main (sound_reachable (path.reachable run))
  rw [hIdle, ← hTrace, List.filterMap_append] at hLast
  exact ⟨during, hTrace.symm, hIdle, served_main (sound_reachable run), hLast, hTraps⟩

/-- Over any part of any run, whoever was ready at the start and whoever became ready
since has been dispatched, in that order, or is ready still. -/
theorem dispatch_order [Hardware] {s t : Kernel} (run : system.Reachable s)
    (path : system.Path (fun _ _ => True) s t) : ∃ during, t.trace = s.trace ++ during ∧
      s.contents (.queue (.sched .main)) ++ readied during =
        dispatches s.idleProc during ++ t.contents (.queue (.sched .main)) := by
  obtain ⟨during, hTrace, -, hFirst, hLast, -⟩ := ready_window run path
  have hWindow := hFirst.window hLast
  rw [joins_turns, serves_dispatches] at hWindow
  exact ⟨during, hTrace, hWindow⟩

open Sample in
/-- The parent becomes ready behind its child, which has its turn. -/
theorem dispatch_order_child : ∃ (s t : Kernel) (during : List Event), system.Reachable s ∧
    t.trace = s.trace ++ during ∧ [2] ++ readied during = dispatches 0 during ++ [1] := by
  obtain ⟨s, run, hIdle, hReady, hPath⟩ := System.exists_reachable
    (P := fun s : Kernel => s.idleProc = 0 ∧ s.contents (.queue (.sched .main)) = [2] ∧
      (system.run (fun _ _ => True) s turn).any (fun t => decide (t.contents (.queue (.sched .main)) = [1])) = true)
    (turn ++ [call .fork []]) initial_booted (by decide +kernel)
  obtain ⟨t, hRun, hEnd⟩ := (Option.any_eq_true _ _).mp hPath
  obtain ⟨during, hTrace, hOrder⟩ := dispatch_order run (.run hRun)
  rw [hReady, hIdle, of_decide_eq_true hEnd] at hOrder
  exact ⟨s, t, during, run, hTrace, hOrder⟩

/-- A process that is ready waits for no more clock traps than there are processes in
front of it: by then it has been dispatched, and before it only those in front of it have,
each of them once. -/
theorem bounded_waiting [Hardware] {s t : Kernel} (run : system.Reachable s) {p : Proc} {ahead behind : List Proc}
    (hReady : s.contents (.queue (.sched .main)) = ahead ++ p :: behind)
    (path : system.Path (fun _ _ => True) s t) : ∃ during, t.trace = s.trace ++ during ∧
      (.dispatched p ∈ during ∨ dispatches s.idleProc during <+: ahead ∧ t.traps ≤ s.traps + ahead.length) := by
  obtain ⟨during, hTrace, -, hFirst, hLast, hTraps⟩ := ready_window run path
  refine ⟨during, hTrace, ?_⟩
  by_cases hDispatched : .dispatched p ∈ during
  · exact Or.inl hDispatched
  · have hNone : Entry.serve p ∉ during.filterMap (Event.turn s.idleProc) := fun hServe =>
      hDispatched (mem_serves_turns.mp (mem_serves.mpr hServe)).2
    rw [hReady] at hFirst
    obtain ⟨front, rest, -, hAhead, hIdle⟩ := hFirst.overtaken hLast hNone
    rw [serves_dispatches] at hAhead
    have hCount := countP_dispatch hIdle
    have hLength := congrArg List.length hAhead
    rw [List.length_append] at hLength
    rw [hTrace, List.countP_append, hCount] at hTraps
    exact Or.inr ⟨⟨front, hAhead⟩, by omega⟩

open Sample in
/-- One process is in front of the second child, which has its turn at the second clock
trap. -/
theorem bounded_waiting_child : ∃ (s t : Kernel) (during : List Event), system.Reachable s ∧
    s.contents (.queue (.sched .main)) = [2, 3] ∧ t.traps = s.traps + 2 ∧ t.trace = s.trace ++ during ∧
    .dispatched 3 ∈ during := by
  obtain ⟨s, run, hReady, hPath⟩ := System.exists_reachable
    (P := fun s : Kernel => s.contents (.queue (.sched .main)) = [2, 3] ∧
      (system.run (fun _ _ => True) s (turn ++ turn)).any (fun t => decide (t.traps = s.traps + 2)) = true)
    (turn ++ [call .fork [], call .fork []]) initial_booted (by decide +kernel)
  obtain ⟨t, hRun, hEnd⟩ := (Option.any_eq_true _ _).mp hPath
  have hTraps : t.traps = s.traps + 2 := of_decide_eq_true hEnd
  obtain ⟨during, hTrace, hDispatched | ⟨-, hFew⟩⟩ := bounded_waiting run
    (show s.contents (.queue (.sched .main)) = [2] ++ 3 :: [] from hReady) (.run hRun)
  · exact ⟨s, t, during, run, hReady, hTraps, hTrace, hDispatched⟩
  · have hFew : t.traps ≤ s.traps + 1 := hFew
    omega

end KernelStart
end Yalnix
