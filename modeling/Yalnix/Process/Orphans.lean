import Yalnix.Process.PermitSupply
import Yalnix.Process.Registry

/-! A process that exits takes its permits with it. `KernelExit` gives no lock back and
only a holder may, so a lock all of whose holders have exited grants nothing any more:
whoever is queued for it is queued for good. -/
namespace Yalnix

open Hardware Synchronization Transition

namespace Kernel

variable {s t u : Kernel} {id : Nat} {p : Proc}

/-- The lock is in use, and processes that have exited hold all its permits. -/
structure Orphaned [Hardware] (s : Kernel) (id : Nat) : Prop where
  inUse : (s.locks.entries id).inUse = true
  held : (s.locks.entries id).pids ≠ []
  dead : ∀ pid ∈ (s.locks.entries id).pids, pid ≠ 0 ∧ ∃ p code, newPid p = pid ∧ .exited p code ∈ s.trace

/-- The lock stays in use with the same holders, and nothing was granted or given back. -/
structure Stuck (id : Nat) (s t : Kernel) : Prop where
  inUse : (t.locks.entries id).inUse = (s.locks.entries id).inUse
  pids : (t.locks.entries id).pids = (s.locks.entries id).pids
  trace : ∃ events, t.trace = s.trace ++ events ∧ grants id events = [] ∧ releases id events = []

namespace Stuck

theorem refl (id : Nat) (s : Kernel) : Stuck id s s := ⟨rfl, rfl, [], by simp, rfl, rfl⟩

theorem trans (h : Stuck id s t) (hNext : Stuck id t u) : Stuck id s u := by
  obtain ⟨events, hTrace, hGrants, hReleases⟩ := h.trace
  obtain ⟨more, hMore, hMoreGrants, hMoreReleases⟩ := hNext.trace
  refine ⟨hNext.inUse.trans h.inUse, hNext.pids.trans h.pids, events ++ more, ?_, ?_, ?_⟩
  · rw [hMore, hTrace, List.append_assoc]
  · simp only [grants, List.filterMap_append] at hGrants hMoreGrants ⊢
    rw [hGrants, hMoreGrants, List.append_nil]
  · simp only [releases, List.filterMap_append] at hReleases hMoreReleases ⊢
    rw [hReleases, hMoreReleases, List.append_nil]

/-- Another entry changes, or none. -/
theorem of_entries {events : List Event} (hEntry : t.locks.entries id = s.locks.entries id)
    (hTrace : t.trace = s.trace ++ events) (hGrants : grants id events = []) (hReleases : releases id events = []) :
    Stuck id s t := ⟨by rw [hEntry], by rw [hEntry], events, hTrace, hGrants, hReleases⟩

theorem lockless (id : Nat) (h : Lockless s t) : Stuck id s t := by
  obtain ⟨events, hTrace, hEvents⟩ := h.trace
  refine of_entries (by rw [h.locks]) hTrace ?_ ?_
  all_goals
    refine List.filterMap_eq_nil_iff.mpr fun e he => ?_
    have hLock := hEvents e he
    cases e <;> first | rfl | cases hLock

theorem grants_eq (h : Stuck id s t) : grants id t.trace = grants id s.trace := by
  obtain ⟨events, hTrace, hGrants, -⟩ := h.trace
  rw [hTrace]
  simp only [grants, List.filterMap_append] at hGrants ⊢
  rw [hGrants, List.append_nil]

end Stuck

theorem Orphaned.stuck [Hardware] (h : s.Orphaned id) (hStuck : Stuck id s t) : t.Orphaned id := by
  obtain ⟨events, hTrace, -⟩ := hStuck.trace
  refine ⟨hStuck.inUse.trans h.inUse, hStuck.pids ▸ h.held, fun pid hPid => ?_⟩
  rw [hStuck.pids] at hPid
  obtain ⟨hNe, p, code, hSame, hExited⟩ := h.dead pid hPid
  exact ⟨hNe, p, code, hSame, hTrace ▸ List.mem_append_left _ hExited⟩

variable [Hardware]

/-- Nobody who lives holds a permit. -/
theorem Orphaned.not_mem (h : s.Orphaned id) (hSound : KernelStart.Sound s) (hLineage : s.Lineage)
    (hLive : s.Live p) : (s.pcb p).pid ∉ (s.locks.entries id).pids := by
  intro hPid
  obtain ⟨-, q, code, hSame, hExited⟩ := h.dead _ hPid
  obtain ⟨kids, -, hRegistry⟩ := hLineage
  have hDead := hRegistry.exited_dead q code (List.mem_filter.mpr ⟨hExited, rfl⟩)
  rw [pid_eq hSound hLive] at hSame
  exact hDead.2 (newPid_injective hSame ▸ hLive)

theorem Orphaned.val_le (h : s.Orphaned id) (hSound : KernelStart.Sound s) : (s.locks.entries id).val ≤ 0 := by
  have hLock : LockInv (s.locks.entries id) _ _ _ := hSound.settled.sync.lock id h.inUse
  have hNone : (s.locks.entries id).pids.count 0 = 0 := List.count_eq_zero.mpr fun hZero => (h.dead 0 hZero).1 rfl
  rw [hLock.permits.free, hNone]
  rfl

theorem Orphaned.acquire {k : Nat} {cvarUse : Bool} {result : Acquired} (h : s.Orphaned id)
    (hSound : KernelStart.Sound s) (hLocks : u.locks = s.locks) (hAcquire : u.acquire k p cvarUse = (t, result))
    (hResult : result ≠ .error) : Stuck id u t := by
  obtain ⟨-, -, -, lock, hSet, hUse, hPids⟩ := acquire_spec hAcquire hResult
  obtain ⟨noted, hNoted, -, hNotes⟩ := acquire_notes hAcquire hResult
  by_cases hk : k = id
  · subst hk
    have hVal : ¬0 < (u.locks.entries k).val := by
      rw [hLocks, not_lt]
      exact h.val_le hSound
    have hEntry : t.locks.entries k = lock := by simp [hSet, Table.set]
    rcases hPids with ⟨-, hFree, -⟩ | ⟨-, hPids⟩
    · exact absurd hFree hVal
    rcases hNotes with ⟨hFree, -⟩ | ⟨-, -, -, hTrace⟩
    · exact absurd hFree hVal
    refine ⟨?_, by rw [hEntry, hPids], _, hTrace, rfl, rfl⟩
    rw [hEntry, hUse, hLocks, h.inUse]
  · have hEntry : t.locks.entries id = u.locks.entries id := by
      simp [hSet, Table.set, Function.update_of_ne (Ne.symm hk)]
    rcases hNotes with ⟨-, -, -, hTrace⟩ | ⟨-, -, -, hTrace⟩
    · exact Stuck.of_entries hEntry hTrace (by simp [grants, hk]) (by simp [releases])
    · exact Stuck.of_entries hEntry hTrace (by simp [grants]) (by simp [releases])

theorem Orphaned.release {k : Nat} {cvarUse : Bool} (h : s.Orphaned id) (hSound : KernelStart.Sound s)
    (hLineage : s.Lineage) (hLive : s.Live p) (hRelease : s.release k p cvarUse = (t, true)) : Stuck id s t := by
  obtain ⟨hUse, hFound, -, -, lock, next, hSet, -⟩ := release_spec hRelease
  obtain ⟨noted, hNoted, -, hNotes⟩ := release_notes hRelease
  have hk : k ≠ id := by
    rintro rfl
    exact h.not_mem hSound hLineage hLive (mem_of_find hSound hUse hFound)
  have hEntry : t.locks.entries id = s.locks.entries id := by
    simp [hSet, Table.set, Function.update_of_ne (Ne.symm hk)]
  rcases hNotes with ⟨-, hTrace⟩ | ⟨waiter, more, -, hMore, hTrace⟩
  · exact Stuck.of_entries hEntry hTrace (by simp [grants]) (by simp [releases, hk])
  · have hLess : Lockless s { s with trace := s.trace ++ more } := ⟨rfl, more, rfl, hMore⟩
    obtain ⟨same, hSame, hGrants, hReleases⟩ := (Stuck.lockless id hLess).trace
    obtain rfl : more = same := List.append_cancel_left hSame
    refine Stuck.of_entries hEntry hTrace ?_ ?_
    · simpa [grants, hk] using hGrants
    · simpa [releases, hk] using hReleases

theorem Orphaned.deleteLock {k : Nat} {shrinkOk : Bool} (h : s.Orphaned id) (hSound : KernelStart.Sound s) :
    Stuck id s (s.deleteLock k shrinkOk).1 := by
  have hWf : s.locks.Wf Lock.inUse .blank := hSound.settled.sync.locks
  unfold Kernel.deleteLock
  dsimp only
  split_ifs with hRefused
  · exact .refl id s
  simp only [not_or, Nat.not_le, Bool.not_eq_false, not_lt] at hRefused
  -- a lock that somebody holds is needed
  have hk : id ≠ k := by
    rintro rfl
    have hNone := ((unneeded_iff hSound hRefused.2.1).mpr hRefused.2.2).1
    obtain ⟨pid, hPid⟩ := List.exists_mem_of_ne_nil _ h.held
    have hMem : pid ∈ holders (s.locks.entries id).pids :=
      List.mem_filter.mpr ⟨hPid, by simpa using (h.dead pid hPid).1⟩
    rw [hNone] at hMem
    cases hMem
  exact Stuck.of_entries (hWf.retire_kept { s.locks.entries k with inUse := false } rfl rfl hRefused.1
    shrinkOk hk h.inUse) rfl rfl rfl

theorem Orphaned.newLock {capacity : Nat} {growOk pidsOk : Bool} (h : s.Orphaned id) (hSound : KernelStart.Sound s) :
    Stuck id s (s.newLock capacity growOk pidsOk).1 := by
  have hWf : s.locks.Wf Lock.inUse .blank := hSound.settled.sync.locks
  have hKept := hWf.create_kept (.fresh capacity) rfl (Or.inl rfl) growOk pidsOk h.inUse
  unfold Kernel.newLock
  dsimp only
  split
  · exact Stuck.of_entries hKept (List.append_nil _).symm rfl rfl
  · exact Stuck.of_entries hKept rfl rfl rfl

theorem Orphaned.effect {label : Label} (h : s.Orphaned id) (hSound : KernelStart.Sound s) (hLineage : s.Lineage)
    (hEffect : Effect label s t) : Stuck id s t := by
  cases lock_effect hEffect with
  | none hLess => exact .lockless id hLess
  | newLock => exact h.newLock hSound
  | deleteLock => exact h.deleteLock hSound
  | acquire hBefore hAcquire hResult hAfter =>
      exact ((Stuck.lockless id hBefore).trans (h.acquire hSound hBefore.locks hAcquire hResult)).trans
        (.lockless id hAfter)
  | release hUser hRelease hAfter =>
      exact (h.release hSound hLineage (hSound.settled.live_running hUser) hRelease).trans (.lockless id hAfter)

/-- A process that is queued for the lock stays queued. -/
theorem Orphaned.queued {label : Label} (h : s.Orphaned id) (hSound : KernelStart.Sound s) (hLineage : s.Lineage)
    (hEffect : Effect label s t) (hQueued : s.QueuedFor p id) : t.QueuedFor p id := by
  refine (queuedFor_effect hSound hEffect hQueued).resolve_right fun hHolds => ?_
  have hLive : s.Live p := by
    rcases hQueued with hp | ⟨⟨c, hp⟩, -⟩ <;> exact hSound.settled.placement.live_of_mem hp
  have hMem := hHolds.2
  rw [(h.effect hSound hLineage hEffect).pids] at hMem
  exact h.not_mem hSound hLineage hLive hMem

/-- What stays the same from `s` on, once its lock is orphaned. -/
structure Deadlock (id : Nat) (s t : Kernel) : Prop where
  lineage : t.Lineage
  stuck : Stuck id s t
  queued : ∀ p, s.QueuedFor p id → t.QueuedFor p id

theorem Deadlock.read (h : Deadlock id s t) (hSound : KernelStart.Sound t) (k len : Nat) :
    Deadlock id s (t.read k len) := by
  have hContents := contents_read hSound k len
  have hPcb : (t.read k len).pcb = t.pcb := by
    obtain ⟨ttys, lines, trace, hRead⟩ := read_eq t k len
    rw [hRead]
  refine ⟨h.lineage.read k len, h.stuck.trans (.lockless id ((Lockless.refl t).read k len)), fun p hp => ?_⟩
  rw [QueuedFor, hContents, hPcb]
  exact h.queued p hp

theorem Deadlock.step {label : Label} (hOrphaned : s.Orphaned id) (h : Deadlock id s t)
    (hSound : KernelStart.Sound t) (hStep : t.step label = .ok u) : Deadlock id s u := by
  refine hSound.preserve (I := Deadlock id s) (fun v w hSound hBefore hEffect => ?_) h hStep ?_ ?_
  · have hHere := hOrphaned.stuck hBefore.stuck
    exact ⟨hBefore.lineage.effect hSound hEffect,
      hBefore.stuck.trans (hHere.effect hSound hBefore.lineage hEffect),
      fun p hp => hHere.queued hSound hBefore.lineage hEffect (hBefore.queued p hp)⟩
  · exact fun uc _ k len _ _ hSaved hBefore => hBefore.read hSaved k len
  · intro o k _ _ _
    have hUser : Deadlock id s { t with mode := .user } :=
      ⟨h.lineage.same rfl rfl rfl rfl, h.stuck.trans (.lockless id ((Lockless.refl t).same rfl rfl)), h.queued⟩
    exact hUser.read hSound.user k _

end Kernel

namespace KernelStart

open Kernel

/-- Once all holders of a lock or semaphore have exited, nothing is granted any more: it
stays in use with the same holders, whoever is queued for it is queued for ever, and each
call that asks for it fails or blocks the caller. -/
theorem orphaned_forever [Hardware] {s t : Kernel} {id : Nat} (run : system.Reachable s)
    (hOrphaned : s.Orphaned id) (path : system.Path (fun _ _ => True) s t) :
    t.Orphaned id ∧ grants id t.trace = grants id s.trace ∧ (∀ p, s.QueuedFor p id → t.QueuedFor p id) ∧
    ∀ label u, label.acquires = some id → t.step label = .ok u →
      (u.pcb t.runningProc).uc.regs 0 = errorCode ∨ u.QueuedFor t.runningProc id := by
  have hStart : Deadlock id s s := ⟨lineage_reachable run, .refl id s, fun _ hp => hp⟩
  have hDeadlock := path.invariant (I := Deadlock id s) run hStart
    fun _ _ _ hRun hBefore _ hStep => hBefore.step hOrphaned (sound_reachable hRun) hStep
  refine ⟨hOrphaned.stuck hDeadlock.stuck, hDeadlock.stuck.grants_eq, hDeadlock.queued, ?_⟩
  intro label u hCall hStep
  have hRun := path.reachable run
  have hNext : system.Reachable u := reachable_step hRun hStep
  have hAfter := hDeadlock.step hOrphaned (sound_reachable hRun) hStep
  have hNot {p : Proc} (hLive : u.Live p) : ¬u.locks.Holds (u.pcb p).pid id := fun hHolds =>
    (hOrphaned.stuck hAfter.stuck).not_mem (sound_reachable hNext) hAfter.lineage hLive hHolds.2
  rcases asked_step (sound_reachable hRun) hCall hStep with ⟨-, hError | ⟨hLive, hHolds⟩⟩ | ⟨-, kc, hLock, hInside⟩
  · exact Or.inl hError
  · exact absurd hHolds (hNot hLive)
  · exact Or.inr ((owed_reachable hNext _ kc id hInside hLock).resolve_right (hNot hInside.1))

open Sample in
/-- The child exits while it holds the lock that the parent waits for. -/
theorem orphaned_forever_parent : ∃ s : Kernel, system.Reachable s ∧ s.Orphaned 0 ∧
    s.contents (.queue (.lock 0)) = [1] ∧
    ∀ t, system.Path (fun _ _ => True) s t → t.QueuedFor 1 0 := by
  let lock := Identifiers.createId Identifiers.lockFlag 0
  obtain ⟨s, run, hUse, hPids, hExited, hQueue⟩ := System.exists_reachable
    (P := fun s : Kernel => (s.locks.entries 0).inUse = true ∧ (s.locks.entries 0).pids = [2] ∧
      .exited 2 0 ∈ s.trace ∧ s.contents (.queue (.lock 0)) = [1])
    (turn ++ [call .lockInit [208], call .fork []] ++ turn ++ [call .acquire [lock]] ++ turn ++
      [call .acquire [lock], .resume outcomes, call .exit [0]])
    initial_booted (by decide +kernel)
  have hOrphaned : s.Orphaned 0 := by
    refine ⟨hUse, by simp [hPids], fun pid hPid => ?_⟩
    obtain rfl : pid = 2 := by simpa [hPids] using hPid
    exact ⟨by decide, 2, 0, rfl, hExited⟩
  refine ⟨s, run, hOrphaned, hQueue, fun t path => ?_⟩
  exact (orphaned_forever run hOrphaned path).2.2.1 1 (Or.inl (by simp [hQueue]))

end KernelStart
end Yalnix
