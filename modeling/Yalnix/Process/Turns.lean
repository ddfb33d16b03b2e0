import Yalnix.Process.Conservation

/-! Who is served before whom: the ready queue gives every process its turn in
the order of arrival, and a lock or semaphore grants its requests in the order
in which they were made. -/
namespace Yalnix

open IntrusiveQueue Synchronization Fifo

/-- What the log of the ready queue notes of an event. -/
def Event.turn (idle : Proc) : Event → Option (Entry Proc)
  | .ready p => some (.join p)
  | .dispatched p => some (if p = idle then .idle else .serve p)
  | _ => none

/-- What the log of a lock notes of an event while the lock exists. -/
def Event.request (id : Nat) : Event → Option (Entry Proc)
  | .lockRequested k p => if k = id then some (.join p) else none
  | .lockGranted k p => if k = id then some (.serve p) else none
  | _ => none

/-- The processes for which `acquire` was executed on a lock, in order. -/
def requests (id : Nat) (events : List Event) : List Proc :=
  events.filterMap fun
    | .lockRequested k p => if k = id then some p else none
    | _ => none

/-- The processes that were granted a permit of a lock, in order. -/
def grants (id : Nat) (events : List Event) : List Proc :=
  events.filterMap fun
    | .lockGranted k p => if k = id then some p else none
    | _ => none

section Logs

variable {idle : Proc} {q : QueueId} {events : List Event}

/-- A log grows by what it notes of each event. -/
theorem foldl_enter {note : Event → Option (Entry Proc)} (log : List (Entry Proc))
    (hNote : ∀ e ∈ events, ∀ log, e.enter idle q log = log ++ (note e).toList) :
    events.foldl (fun log e => e.enter idle q log) log = log ++ events.filterMap note := by
  induction events generalizing log with
  | nil => simp
  | cons e events ih =>
      rw [List.foldl_cons, hNote e (by simp), ih _ fun e he => hNote e (by simp [he])]
      cases hEntry : note e with
      | none => simp [hEntry]
      | some entry => simp [hEntry]

theorem enter_main (e : Event) (log : List (Entry Proc)) :
    e.enter idle (.sched .main) log = log ++ (e.turn idle).toList := by
  cases e <;> simp [Event.enter, Event.turn]

theorem enter_lock {id : Nat} {e : Event} (he : e ≠ .lockCreated id) (log : List (Entry Proc)) :
    e.enter idle (.lock id) log = log ++ (e.request id).toList := by
  cases e with
  | lockCreated k =>
      have hk : k ≠ id := fun hk => he (hk ▸ rfl)
      simp [Event.enter, Event.request, hk]
  | lockRequested k p | lockGranted k p =>
      by_cases hk : k = id <;> simp [Event.enter, Event.request, hk]
  | _ => simp [Event.enter, Event.request]

/-- A turn of `p` is noted as such, unless `p` is the idle process. -/
theorem mem_serves_turns {p : Proc} :
    p ∈ serves (events.filterMap (Event.turn idle)) ↔ p ≠ idle ∧ .dispatched p ∈ events := by
  rw [mem_serves, List.mem_filterMap]
  constructor
  · rintro ⟨e, he, hTurn⟩
    cases e with
    | dispatched k =>
        by_cases hk : k = idle
        · simp [Event.turn, hk] at hTurn
        · simp only [Event.turn, if_neg hk, Option.some.injEq, Entry.serve.injEq] at hTurn
          subst hTurn
          exact ⟨hk, he⟩
    | _ => simp [Event.turn] at hTurn
  · rintro ⟨hp, he⟩
    exact ⟨_, he, by simp [Event.turn, hp]⟩

theorem serves_turns (idle : Proc) (events : List Event) : serves (events.filterMap (Event.turn idle)) =
    events.filterMap fun
      | .dispatched p => if p = idle then none else some p
      | _ => none := by
  rw [serves, List.filterMap_filterMap]
  congr 1
  funext e
  cases e with
  | dispatched p => by_cases hp : p = idle <;> simp [Event.turn, hp]
  | _ => rfl

theorem count_dispatched {p : Proc} (hp : p ≠ idle) :
    events.count (.dispatched p) = (serves (events.filterMap (Event.turn idle))).count p := by
  rw [serves_turns]
  induction events with
  | nil => rfl
  | cons e events ih =>
      cases e with
      | dispatched k =>
          by_cases hk : k = idle
          · simp [hk, ih, Ne.symm hp]
          · simp [List.count_cons, hk, ih]
      | _ => simp [ih]

theorem joins_requests (id : Nat) (events : List Event) :
    joins (events.filterMap (Event.request id)) = requests id events := by
  rw [joins, requests, List.filterMap_filterMap]
  congr 1
  funext e
  cases e with
  | lockRequested k p | lockGranted k p => by_cases hk : k = id <;> simp [Event.request, hk]
  | _ => rfl

theorem serves_requests (id : Nat) (events : List Event) :
    serves (events.filterMap (Event.request id)) = grants id events := by
  rw [serves, grants, List.filterMap_filterMap]
  congr 1
  funext e
  cases e with
  | lockRequested k p | lockGranted k p => by_cases hk : k = id <;> simp [Event.request, hk]
  | _ => rfl

end Logs

namespace KernelStart

open Kernel

/-- From the moment a process is appended to the ready queue until its turn,
every other process has at most one turn and the idle process has none. -/
theorem round_robin [Hardware] {s : Kernel} (run : system.Reachable s) {p : Proc}
    {before during after : List Event} (hTrace : s.trace = before ++ .ready p :: during ++ after)
    (hWaits : .dispatched p ∉ during) :
    (∀ q, during.count (.dispatched q) ≤ 1) ∧ .dispatched s.idleProc ∉ during := by
  have hServed := (sound_reachable run).settled.placement.served (.sched .main) rfl
  have hLog : s.log (.sched .main) = s.trace.filterMap (Event.turn s.idleProc) :=
    foldl_enter [] fun e _ log => enter_main e log
  rw [show s.shape.log = s.log from rfl, hLog, hTrace, List.filterMap_append, List.filterMap_append] at hServed
  obtain ⟨queue, hUntil⟩ := hServed.of_append
  have hNone : Entry.serve p ∉ during.filterMap (Event.turn s.idleProc) := fun hServe =>
    hWaits (mem_serves_turns.mp (mem_serves.mpr hServe)).2
  obtain ⟨-, -, -, -, hNodup, hIdle⟩ := hUntil.waiting hNone
  have hNever : .dispatched s.idleProc ∉ during := by
    intro hMem
    exact hIdle (List.mem_filterMap.mpr ⟨_, hMem, by simp [Event.turn]⟩)
  refine ⟨fun q => ?_, hNever⟩
  by_cases hq : q = s.idleProc
  · rw [hq, List.count_eq_zero.mpr hNever]
    exact Nat.zero_le 1
  · rw [count_dispatched hq]
    exact List.nodup_iff_count_le_one.mp hNodup q

open Sample in
/-- A process and its child take turns; the parent waits for its second one. -/
theorem round_robin_child : ∃ s : Kernel, system.Reachable s ∧
    s.trace = s.trace.take 6 ++ .ready 1 :: [.dispatched 2] ++ [] ∧
    (∀ q, [Event.dispatched 2].count (.dispatched q) ≤ 1) ∧ .dispatched s.idleProc ∉ [Event.dispatched 2] := by
  obtain ⟨s, run, hTrace⟩ := Transition.System.exists_reachable
    (P := fun s : Kernel => s.trace = s.trace.take 6 ++ .ready 1 :: [.dispatched 2] ++ [])
    (turn ++ [call .fork []] ++ turn) initial_booted (by decide +kernel)
  exact ⟨s, run, hTrace, round_robin run hTrace (by decide)⟩

/-- Requests on a lock or semaphore are granted in the order in which they were
made: at every moment the grants so far answer the first requests. Nobody
gets a permit at once while another process is queued. -/
theorem grant_order [Hardware] {s : Kernel} (run : system.Reachable s) {id : Nat}
    {before during : List Event} (hTrace : s.trace = before ++ .lockCreated id :: during)
    (hInstance : .lockCreated id ∉ during) :
    (∀ earlier later, during = earlier ++ later → grants id earlier <+: requests id earlier) ∧
      (s.contents (.queue (.lock id)) ≠ [] → ∀ p cvarUse, (s.acquire id p cvarUse).2 ≠ .acquired) := by
  have h := (sound_reachable run).settled
  refine ⟨fun earlier later hSplit => ?_, fun hQueue p cvarUse hAcquired => ?_⟩
  · have hServed := h.placement.served (.lock id) rfl
    have hLog : s.log (.lock id) = during.filterMap (Event.request id) := by
      rw [Kernel.log, hTrace, List.foldl_append, List.foldl_cons]
      refine (foldl_enter _ fun e he log => enter_lock ?_ log).trans (by simp [Event.enter])
      rintro rfl
      exact hInstance he
    rw [show s.shape.log = s.log from rfl, hLog, hSplit, List.filterMap_append] at hServed
    obtain ⟨queue, hUntil⟩ := hServed.of_append
    have hJoins := hUntil.joins_eq
    rw [joins_requests, serves_requests] at hJoins
    exact ⟨queue, hJoins.symm⟩
  · unfold Kernel.acquire at hAcquired
    dsimp only at hAcquired
    split at hAcquired
    · cases hAcquired
    · rename_i hFail
      simp only [not_or, Bool.not_eq_false] at hFail
      split at hAcquired
      · rename_i hVal
        have hZero : (s.locks.entries id).val = 0 := (h.sync.lock id hFail.2.1).full hQueue
        omega
      · cases hAcquired

open Sample in
/-- A lock that a process and its child ask for, one after the other. -/
theorem grant_order_child : ∃ s : Kernel, system.Reachable s ∧
    s.trace = s.trace.take 3 ++ .lockCreated 0 :: s.trace.drop 4 ∧
    requests 0 (s.trace.drop 4) = [1, 2] ∧ s.contents (.queue (.lock 0)) = [2] ∧
    grants 0 (s.trace.drop 4) <+: requests 0 (s.trace.drop 4) := by
  obtain ⟨s, run, hTrace, hOnce, hAsked, hQueue⟩ := Transition.System.exists_reachable
    (P := fun s : Kernel => s.trace = s.trace.take 3 ++ .lockCreated 0 :: s.trace.drop 4 ∧
      .lockCreated 0 ∉ s.trace.drop 4 ∧ requests 0 (s.trace.drop 4) = [1, 2] ∧
      s.contents (.queue (.lock 0)) = [2])
    (turn ++ [call .lockInit [208], call .acquire [Identifiers.createId Identifiers.lockFlag 0],
      call .fork []] ++ turn ++ [call .acquire [Identifiers.createId Identifiers.lockFlag 0]])
    initial_booted (by decide +kernel)
  exact ⟨s, run, hTrace, hAsked, hQueue, (grant_order run hTrace hOnce).1 _ [] (by simp)⟩

end KernelStart
end Yalnix
