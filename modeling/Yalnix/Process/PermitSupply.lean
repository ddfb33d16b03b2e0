import Yalnix.Objects.Kinds
import Yalnix.Process.History
import Yalnix.Process.Turns

/-! Which requests on a lock or semaphore are granted. The permits that are out are
counted along the history, so that the grants are known from the requests and the
releases alone. -/
namespace Yalnix

open Hardware Synchronization Fifo

/-- The processes that gave back a permit of a lock, in order. -/
def releases (id : Nat) (events : List Event) : List Proc :=
  events.filterMap fun
    | .lockReleased k p => if k = id then some p else none
    | _ => none

/-- What an event does to the number of permits of a lock that are out. -/
def Event.permits (id : Nat) (n : Int) : Event → Int
  | .lockCreated k => if k = id then 0 else n
  | .lockGranted k _ => if k = id then n + 1 else n
  | .lockReleased k _ => if k = id then n - 1 else n
  | _ => n

/-- The permits of a lock that are out after these events. -/
def outstanding (id : Nat) (events : List Event) : Int := events.foldl (fun n e => e.permits id n) 0

section Counting

variable {id : Nat} {events more : List Event}

theorem outstanding_append (id : Nat) (events more : List Event) :
    outstanding id (events ++ more) = more.foldl (fun n e => e.permits id n) (outstanding id events) :=
  List.foldl_append

theorem outstanding_lockless (hMore : ∀ e ∈ more, e.isLock = false) :
    outstanding id (events ++ more) = outstanding id events := by
  rw [outstanding_append]
  generalize outstanding id events = n
  induction more generalizing n with
  | nil => rfl
  | cons e more ih =>
      have hSame : e.permits id n = n := by
        have hLock := hMore e List.mem_cons_self
        cases e <;> first | rfl | cases hLock
      rw [List.foldl_cons, hSame]
      exact ih (fun e he => hMore e (List.mem_cons_of_mem _ he)) n

/-- Since the lock was created, each grant took a permit and each release gave one
back. -/
theorem outstanding_since {before during : List Event} (hInstance : .lockCreated id ∉ during) :
    outstanding id (before ++ .lockCreated id :: during) = (grants id during).length - (releases id during).length := by
  rw [outstanding_append, List.foldl_cons]
  have hCount (n : Int) : during.foldl (fun n e => e.permits id n) n =
      n + (grants id during).length - (releases id during).length := by
    induction during generalizing n with
    | nil => simp [grants, releases]
    | cons e during ih =>
        rw [List.mem_cons, not_or] at hInstance
        rw [List.foldl_cons, ih hInstance.2]
        cases e with
        | lockCreated k =>
            have hk : k ≠ id := fun hk => hInstance.1 (hk ▸ rfl)
            simp [Event.permits, grants, releases, hk]
        | lockGranted k p | lockReleased k p =>
            by_cases hk : k = id
            · simp [Event.permits, grants, releases, hk]
              omega
            · simp [Event.permits, grants, releases, hk]
        | _ => simp [Event.permits, grants, releases]
  rw [hCount]
  simp [Event.permits]

end Counting

namespace Kernel

variable {s t : Kernel} {label : Label}

/-- The permits of a lock in use that are not out are free. -/
def Balanced (s : Kernel) : Prop :=
  ∀ id, (s.locks.entries id).inUse = true →
    (s.locks.entries id).val + outstanding id s.trace = (s.locks.entries id).capacity

theorem Balanced.lockless (h : s.Balanced) (hLess : Lockless s t) : t.Balanced := by
  intro id hUse
  obtain ⟨events, hTrace, hEvents⟩ := hLess.trace
  rw [hLess.locks] at hUse ⊢
  rw [hTrace, outstanding_lockless hEvents]
  exact h id hUse

/-- One entry changes together with the permits that are out. -/
theorem Balanced.set {id : Nat} {lock : Lock} {events : List Event} (h : s.Balanced)
    (hLocks : t.locks = s.locks.set id lock) (hTrace : t.trace = s.trace ++ events)
    (hOther : ∀ k, k ≠ id → outstanding k (s.trace ++ events) = outstanding k s.trace)
    (hEntry : lock.inUse = true → lock.val + outstanding id (s.trace ++ events) = lock.capacity) : t.Balanced := by
  intro k hUse
  rw [hLocks] at hUse ⊢
  rw [hTrace]
  by_cases hk : k = id
  · subst hk
    simp only [Table.set, Function.update_self] at hUse ⊢
    exact hEntry hUse
  · simp only [Table.set, Function.update_of_ne hk] at hUse ⊢
    rw [hOther k hk]
    exact h k hUse

/-- An event of another lock. -/
theorem outstanding_other {id k : Nat} {events : List Event} (hk : k ≠ id) {e : Event}
    (he : e = .lockCreated id ∨ ∃ p, e = .lockRequested id p ∨ e = .lockGranted id p ∨ e = .lockReleased id p) :
    outstanding k (events ++ [e]) = outstanding k events := by
  rw [outstanding_append]
  rcases he with rfl | ⟨p, rfl | rfl | rfl⟩ <;> simp [Event.permits, hk.symm]

theorem Balanced.acquire {id : Nat} {p : Proc} {cvarUse : Bool} {result : Acquired} (h : s.Balanced)
    (hAcquire : s.acquire id p cvarUse = (t, result)) (hResult : result ≠ .error) : t.Balanced := by
  obtain ⟨lock, hLocks, hCapacity, hNotes⟩ := acquire_notes hAcquire hResult
  obtain ⟨hUse, -⟩ := acquire_spec hAcquire hResult
  have hOld := h id hUse
  rcases hNotes with ⟨-, -, hVal, hTrace⟩ | ⟨-, -, hVal, hTrace⟩
  · refine h.set hLocks hTrace (fun k hk => ?_) fun _ => ?_
    · rw [show s.trace ++ [.lockRequested id p, .lockGranted id p] =
        s.trace ++ [.lockRequested id p] ++ [.lockGranted id p] by simp, outstanding_other hk (by simp),
        outstanding_other hk (by simp)]
    · rw [hVal, hCapacity, outstanding_append]
      simp only [List.foldl_cons, List.foldl_nil, Event.permits, if_true]
      omega
  · refine h.set hLocks hTrace (fun k hk => outstanding_other hk (by simp)) fun _ => ?_
    rw [hVal, hCapacity, outstanding_append]
    exact hOld

theorem Balanced.release {id : Nat} {p : Proc} {cvarUse : Bool} (h : s.Balanced)
    (hRelease : s.release id p cvarUse = (t, true)) : t.Balanced := by
  obtain ⟨lock, hLocks, hCapacity, hNotes⟩ := release_notes hRelease
  obtain ⟨hUse, -⟩ := release_spec hRelease
  have hOld := h id hUse
  rcases hNotes with ⟨hVal, hTrace⟩ | ⟨waiter, more, hVal, hMore, hTrace⟩
  · refine h.set hLocks hTrace (fun k hk => outstanding_other hk (by simp)) fun _ => ?_
    rw [hVal, hCapacity, outstanding_append]
    simp only [List.foldl_cons, List.foldl_nil, Event.permits, if_true]
    omega
  · rw [← List.append_assoc] at hTrace
    have hLess (k : Nat) : outstanding k (s.trace ++ [.lockReleased id p, .lockGranted id waiter] ++ more) =
        outstanding k (s.trace ++ [.lockReleased id p] ++ [.lockGranted id waiter]) := by
      rw [outstanding_lockless hMore]
      simp
    rw [List.append_assoc] at hTrace
    refine h.set hLocks hTrace (fun k hk => ?_) fun _ => ?_
    · rw [← List.append_assoc, hLess, outstanding_other hk (by simp), outstanding_other hk (by simp)]
    · rw [hVal, hCapacity, ← List.append_assoc, hLess, outstanding_append, outstanding_append]
      simp only [List.foldl_cons, List.foldl_nil, Event.permits, if_true]
      omega

variable [Hardware]

theorem Balanced.newLock {capacity : Nat} {growOk pidsOk : Bool} (h : s.Balanced) (hSound : KernelStart.Sound s) :
    (s.newLock capacity growOk pidsOk).1.Balanced := by
  have hWf : s.locks.Wf Lock.inUse .blank := hSound.settled.sync.locks
  obtain ⟨-, hSome, hNone⟩ := hWf.create (.fresh capacity) rfl (Or.inl rfl) growOk pidsOk
  unfold Kernel.newLock
  dsimp only
  split
  · rename_i hResult
    intro k hUse
    rcases hNone hResult with hSame | hClear
    · simp only [hSame] at hUse ⊢
      exact h k hUse
    · simp only [hClear] at hUse ⊢
      by_cases hk : k = s.locks.openIdx
      · subst hk
        simp [Lock.blank] at hUse
      · simp only [Function.update_of_ne hk] at hUse ⊢
        exact h k hUse
  · rename_i id hResult
    obtain ⟨rfl, hFill⟩ := hSome id hResult
    intro k hUse
    simp only [emit, hFill] at hUse ⊢
    by_cases hk : k = s.locks.openIdx
    · subst hk
      rw [outstanding_append]
      simp [Event.permits, Lock.fresh]
    · simp only [Function.update_of_ne hk] at hUse ⊢
      rw [outstanding_other hk (Or.inl rfl)]
      exact h k hUse

theorem Balanced.deleteLock {id : Nat} {shrinkOk : Bool} (h : s.Balanced) (hSound : KernelStart.Sound s) :
    (s.deleteLock id shrinkOk).1.Balanced := by
  have hWf : s.locks.Wf Lock.inUse .blank := hSound.settled.sync.locks
  unfold Kernel.deleteLock
  dsimp only
  split_ifs with hFail
  · exact h
  simp only [not_or, not_le] at hFail
  obtain ⟨-, hEntry⟩ := hWf.retire { s.locks.entries id with inUse := false } rfl rfl hFail.1 shrinkOk
  intro k hUse
  have hReclaimed : outstanding k (s.trace ++ [.lockReclaimed id]) = outstanding k s.trace := by
    rw [outstanding_append]
    rfl
  simp only [emit] at hUse ⊢
  rw [hReclaimed]
  rcases hEntry k with hSame | ⟨hBlank, -⟩
  · rw [hSame] at hUse ⊢
    by_cases hk : k = id
    · subst hk
      simp at hUse
    · rw [Function.update_of_ne hk] at hUse ⊢
      exact h k hUse
  · rw [hBlank] at hUse
    cases hUse

theorem Balanced.effect (h : s.Balanced) (hSound : KernelStart.Sound s) (hEffect : LockEffect s t) : t.Balanced := by
  cases hEffect with
  | none hLess => exact h.lockless hLess
  | newLock => exact h.newLock hSound
  | deleteLock => exact h.deleteLock hSound
  | acquire hBefore hAcquire hResult hAfter => exact ((h.lockless hBefore).acquire hAcquire hResult).lockless hAfter
  | release _ hRelease hAfter => exact (h.release hRelease).lockless hAfter

theorem balanced_step (h : s.Balanced) (hSound : KernelStart.Sound s) (hStep : s.step label = .ok t) : t.Balanced := by
  refine hSound.preserve (I := Balanced) (fun _ _ hSound hBefore hEffect => hBefore.effect hSound (lock_effect hEffect))
    h hStep ?_ ?_
  · exact fun uc _ id len _ _ _ hSaved => hSaved.lockless ((Lockless.refl _).read id len)
  · intro o id _ _ _
    have hUser : Lockless s { s with mode := .user } := (Lockless.refl s).same rfl rfl
    exact h.lockless (hUser.read id _)

end Kernel

namespace KernelStart

open Kernel

theorem balanced_reachable [Hardware] {s : Kernel} (run : system.Reachable s) : s.Balanced := by
  refine run.invariant (I := Balanced) ?_ fun s label t hRun hBalanced _ hStep =>
    balanced_step hBalanced (sound_reachable hRun) hStep
  rintro s ⟨uctxt, early, late, rfl⟩ id hUse
  exact absurd hUse (not_inUse_kernelStart uctxt early late .lock id)

/-- At every moment the requests on a lock or semaphore that have been granted are the
first ones, as many as it had permits at the start and was given back since. -/
theorem grants_exact [Hardware] {s : Kernel} (run : system.Reachable s) {id : Nat} {before during : List Event}
    (hTrace : s.trace = before ++ .lockCreated id :: during) (hInstance : .lockCreated id ∉ during)
    (hUse : (s.locks.entries id).inUse = true) :
    grants id during = (requests id during).take ((s.locks.entries id).capacity + (releases id during).length) := by
  have h := (sound_reachable run).settled
  have hLock : LockInv (s.locks.entries id) _ _ _ := h.sync.lock id hUse
  have hBalance := balanced_reachable run id hUse
  rw [hTrace, outstanding_since hInstance] at hBalance
  have hServed := h.placement.served (.lock id) rfl
  have hLog : s.log (.lock id) = during.filterMap (Event.request id) := by
    rw [Kernel.log, hTrace, List.foldl_append, List.foldl_cons]
    refine (foldl_enter _ fun e he log => enter_lock ?_ log).trans (by simp [Event.enter])
    rintro rfl
    exact hInstance he
  rw [show s.shape.log = s.log from rfl, hLog] at hServed
  have hFree : (s.locks.entries id).val = ((s.locks.entries id).pids.count 0 : Nat) := hLock.permits.free
  have hTake := hServed.serves_eq_take (n := (s.locks.entries id).capacity + (releases id during).length)
    (by rw [serves_requests]; omega) fun hQueue => by
      have hZero : (s.locks.entries id).val = 0 := hLock.full hQueue
      rw [serves_requests]
      omega
  rwa [serves_requests, joins_requests] at hTake

open Sample in
/-- The child asks for the lock that the parent holds, and gets it when it is released. -/
theorem grants_exact_child : ∃ s : Kernel, system.Reachable s ∧
    s.trace = s.trace.take 3 ++ .lockCreated 0 :: s.trace.drop 4 ∧ requests 0 (s.trace.drop 4) = [1, 2] ∧
    releases 0 (s.trace.drop 4) = [1] ∧ grants 0 (s.trace.drop 4) = [1, 2] := by
  obtain ⟨s, run, hTrace, hOnce, hUse, hCapacity, hAsked, hReleased⟩ := Transition.System.exists_reachable
    (P := fun s : Kernel => s.trace = s.trace.take 3 ++ .lockCreated 0 :: s.trace.drop 4 ∧
      .lockCreated 0 ∉ s.trace.drop 4 ∧ (s.locks.entries 0).inUse = true ∧ (s.locks.entries 0).capacity = 1 ∧
      requests 0 (s.trace.drop 4) = [1, 2] ∧ releases 0 (s.trace.drop 4) = [1])
    (turn ++ [call .lockInit [208], call .acquire [Identifiers.createId Identifiers.lockFlag 0], call .fork []] ++ turn ++
      [call .acquire [Identifiers.createId Identifiers.lockFlag 0], .resume outcomes,
        call .release [Identifiers.createId Identifiers.lockFlag 0]])
    initial_booted (by decide +kernel)
  have hGrants := grants_exact run hTrace hOnce hUse
  rw [hCapacity, hAsked, hReleased] at hGrants
  exact ⟨s, run, hTrace, hAsked, hReleased, hGrants⟩

end KernelStart
end Yalnix
