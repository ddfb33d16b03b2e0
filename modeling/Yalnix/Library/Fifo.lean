import Mathlib.Data.List.Basic
import Mathlib.Data.List.Induction
import Mathlib.Data.List.Nodup

/-! The history of a queue that is served first come, first served, kept as a
log of arrivals and services. What a log allows is said once; who may
overtake whom is then a property of logs. -/
namespace Fifo

variable {α : Type*}

/-- An arrival at the tail, the service of the head, or a turn that finds
nobody. -/
inductive Entry (α : Type*) where
  | join (a : α)
  | serve (a : α)
  | idle
  deriving DecidableEq

/-- The log ends with this queue. -/
inductive Serves : List (Entry α) → List α → Prop where
  | nil : Serves [] []
  | join {log : List (Entry α)} {queue : List α} {a : α} (h : Serves log queue) (ha : a ∉ queue) :
      Serves (log ++ [.join a]) (queue ++ [a])
  | serve {log : List (Entry α)} {queue : List α} {a : α} (h : Serves log (a :: queue)) :
      Serves (log ++ [.serve a]) queue
  | idle {log : List (Entry α)} (h : Serves log []) : Serves (log ++ [.idle]) []

/-- Those who arrived, in order. -/
def joins (log : List (Entry α)) : List α :=
  log.filterMap fun
    | .join a => some a
    | _ => none

/-- Those who were served, in order. -/
def serves (log : List (Entry α)) : List α :=
  log.filterMap fun
    | .serve a => some a
    | _ => none

@[simp] theorem joins_append (log more : List (Entry α)) :
    joins (log ++ more) = joins log ++ joins more := List.filterMap_append

@[simp] theorem serves_append (log more : List (Entry α)) :
    serves (log ++ more) = serves log ++ serves more := List.filterMap_append

@[simp] theorem serves_join (a : α) : serves [Entry.join a] = [] := rfl
@[simp] theorem serves_serve (a : α) : serves [Entry.serve a] = [a] := rfl
@[simp] theorem serves_idle : serves [(Entry.idle : Entry α)] = [] := rfl
@[simp] theorem joins_join (a : α) : joins [Entry.join a] = [a] := rfl
@[simp] theorem joins_serve (a : α) : joins [Entry.serve a] = [] := rfl
@[simp] theorem joins_idle : joins [(Entry.idle : Entry α)] = [] := rfl

theorem mem_serves {log : List (Entry α)} {a : α} : a ∈ serves log ↔ Entry.serve a ∈ log := by
  simp only [serves, List.mem_filterMap]
  constructor
  · rintro ⟨entry, hEntry, hSome⟩
    cases entry with
    | serve b =>
        obtain rfl := Option.some.inj hSome
        exact hEntry
    | join | idle => cases hSome
  · intro hEntry
    exact ⟨_, hEntry, rfl⟩

namespace Serves

variable {log more : List (Entry α)} {queue : List α} {a : α}

/-- What the queue was before an entry that left this one. -/
def Before (log : List (Entry α)) (queue : List α) : Entry α → Prop
  | .join a => ∃ before, queue = before ++ [a] ∧ a ∉ before ∧ Serves log before
  | .serve a => Serves log (a :: queue)
  | .idle => queue = [] ∧ Serves log []

theorem last {entry : Entry α} (h : Serves (log ++ [entry]) queue) : Before log queue entry := by
  generalize hLog : log ++ [entry] = whole at h
  cases h with
  | nil => simp at hLog
  | join h ha =>
      obtain ⟨rfl, hEntry⟩ := List.append_inj' hLog rfl
      obtain rfl := List.singleton_injective hEntry
      exact ⟨_, rfl, ha, h⟩
  | serve h =>
      obtain ⟨rfl, hEntry⟩ := List.append_inj' hLog rfl
      obtain rfl := List.singleton_injective hEntry
      exact h
  | idle h =>
      obtain ⟨rfl, hEntry⟩ := List.append_inj' hLog rfl
      obtain rfl := List.singleton_injective hEntry
      exact ⟨rfl, h⟩

theorem nodup (h : Serves log queue) : queue.Nodup := by
  induction h with
  | nil => exact List.nodup_nil
  | join h ha ih => exact List.nodup_append_comm.mp (List.nodup_cons.mpr ⟨ha, ih⟩)
  | serve h ih => exact (List.nodup_cons.mp ih).2
  | idle h ih => exact ih

/-- Whoever has arrived was served or is still queued, in the order of arrival. -/
theorem joins_eq (h : Serves log queue) : joins log = serves log ++ queue := by
  induction h with
  | nil => rfl
  | join h ha ih => simp [ih]
  | serve h ih => simp [ih]
  | idle h ih => simp [ih]

/-- When only so many services are allowed and nobody waits for one that is, the first
arrivals were served, and no others. -/
theorem serves_eq_take {n : Nat} (h : Serves log queue) (hMost : (serves log).length ≤ n)
    (hFull : queue ≠ [] → (serves log).length = n) : serves log = (joins log).take n := by
  rw [h.joins_eq]
  by_cases hQueue : queue = []
  · rw [hQueue, List.append_nil, List.take_of_length_le hMost]
  · rw [List.take_left' (hFull hQueue)]

/-- What joins the queue later, behind those who are in it, is what is served later,
before those who are left. -/
theorem window (h : Serves log queue) {last : List α} (hLast : Serves (log ++ more) last) :
    queue ++ joins more = serves more ++ last := by
  have hJoins := hLast.joins_eq
  rw [joins_append, serves_append, h.joins_eq, List.append_assoc, List.append_assoc] at hJoins
  exact List.append_cancel_left hJoins

/-- Whoever waits is not overtaken by those behind: only those in front are served, each
once, and no turn finds nobody. -/
theorem overtaken {ahead behind last : List α} (h : Serves log (ahead ++ a :: behind))
    (hLast : Serves (log ++ more) last) (hMore : Entry.serve a ∉ more) :
    ∃ front rest, last = front ++ a :: rest ∧ serves more ++ front = ahead ∧ Entry.idle ∉ more := by
  induction more using List.reverseRecOn generalizing last with
  | nil =>
      have hSame := h.window hLast
      simp only [joins, serves, List.filterMap_nil, List.append_nil, List.nil_append] at hSame
      exact ⟨ahead, behind, hSame.symm, rfl, List.not_mem_nil⟩
  | append_singleton more entry ih =>
      rw [List.mem_append, not_or] at hMore
      rw [← List.append_assoc] at hLast
      have hBefore := hLast.last
      cases entry with
      | join b =>
          obtain ⟨before, rfl, -, hOld⟩ := hBefore
          obtain ⟨front, rest, rfl, hAhead, hIdle⟩ := ih hOld hMore.1
          exact ⟨front, rest ++ [b], by simp, by simpa using hAhead, by simpa using hIdle⟩
      | serve b =>
          obtain ⟨front, rest, hQueue, hAhead, hIdle⟩ := ih hBefore hMore.1
          cases front with
          | nil =>
              obtain ⟨rfl, -⟩ := List.cons.inj hQueue
              simp at hMore
          | cons c front =>
              obtain ⟨rfl, rfl⟩ := List.cons.inj hQueue
              exact ⟨front, rest, rfl, by simpa using hAhead, by simpa using hIdle⟩
      | idle =>
          obtain ⟨front, rest, hQueue, -, -⟩ := ih hBefore.2 hMore.1
          simp at hQueue

/-- A log can be cut short. -/
theorem of_append (h : Serves (log ++ more) queue) : ∃ before, Serves log before := by
  induction more using List.reverseRecOn generalizing queue with
  | nil =>
      rw [List.append_nil] at h
      exact ⟨queue, h⟩
  | append_singleton more entry ih =>
      rw [← List.append_assoc] at h
      have hLast := h.last
      cases entry with
      | join a =>
          obtain ⟨before, -, -, hBefore⟩ := hLast
          exact ih hBefore
      | serve a => exact ih hLast
      | idle => exact ih hLast.2

/-- While `a` waits it stays in the queue. Those in front of it were not served
since it came, nobody was served twice, and no turn found nobody. -/
theorem waiting (h : Serves (log ++ .join a :: more) queue) (hMore : Entry.serve a ∉ more) :
    ∃ ahead behind, queue = ahead ++ a :: behind ∧ (∀ b ∈ serves more, b ∉ ahead) ∧
      (serves more).Nodup ∧ Entry.idle ∉ more := by
  induction more using List.reverseRecOn generalizing queue with
  | nil =>
      obtain ⟨before, rfl, -, -⟩ := h.last
      exact ⟨before, [], rfl, by simp [serves], List.nodup_nil, List.not_mem_nil⟩
  | append_singleton more entry ih =>
      rw [List.mem_append, not_or] at hMore
      rw [← List.cons_append, ← List.append_assoc] at h
      have hLast := h.last
      cases entry with
      | join b =>
          obtain ⟨before, rfl, -, hBefore⟩ := hLast
          obtain ⟨ahead, behind, rfl, hAhead, hNodup, hIdle⟩ := ih hBefore hMore.1
          refine ⟨ahead, behind ++ [b], by simp, ?_, ?_, ?_⟩
          · simpa using hAhead
          · simpa using hNodup
          · simpa using hIdle
      | serve b =>
          obtain ⟨ahead, behind, hQueue, hAhead, hNodup, hIdle⟩ := ih hLast hMore.1
          cases ahead with
          | nil =>
              obtain ⟨rfl, -⟩ := List.cons.inj hQueue
              simp at hMore
          | cons first ahead =>
              obtain ⟨rfl, rfl⟩ := List.cons.inj hQueue
              have hFresh := (List.nodup_cons.mp hLast.nodup).1
              have hNew : b ∉ serves more := fun hb => hAhead b hb (by simp)
              refine ⟨ahead, behind, rfl, fun c hc => ?_, ?_, ?_⟩
              · rw [serves_append, List.mem_append] at hc
                rcases hc with hc | hc
                · exact fun hMem => hAhead c hc (List.mem_cons_of_mem _ hMem)
                · obtain rfl := List.mem_singleton.mp hc
                  exact fun hMem => hFresh (List.mem_append_left _ hMem)
              · rw [serves_append]
                exact List.nodup_append_comm.mp (List.nodup_cons.mpr ⟨hNew, hNodup⟩)
              · simpa using hIdle
      | idle =>
          obtain ⟨-, hBefore⟩ := hLast
          obtain ⟨ahead, behind, hQueue, -⟩ := ih hBefore hMore.1
          simp at hQueue

end Serves

/-- The last entry about `a` is an arrival. -/
def pending [DecidableEq α] (a : α) (log : List (Entry α)) : Bool :=
  log.foldl (fun waits entry => match entry with
    | .join b => if b = a then true else waits
    | .serve b => if b = a then false else waits
    | .idle => waits) false

section Pending

variable [DecidableEq α] {log : List (Entry α)} {queue : List α} {a : α}

@[simp] theorem pending_join (log : List (Entry α)) (a b : α) :
    pending a (log ++ [.join b]) = if b = a then true else pending a log := by
  simp [pending]

@[simp] theorem pending_serve (log : List (Entry α)) (a b : α) :
    pending a (log ++ [.serve b]) = if b = a then false else pending a log := by
  simp [pending]

@[simp] theorem pending_idle (log : List (Entry α)) (a : α) :
    pending a (log ++ [.idle]) = pending a log := by
  simp [pending]

/-- Those who are queued are those who have arrived since they were last served. -/
theorem Serves.mem_iff (h : Serves log queue) : a ∈ queue ↔ pending a log = true := by
  induction h with
  | nil => simp [pending]
  | @join log queue b h hb ih =>
      rw [pending_join, List.mem_append, ih, List.mem_singleton]
      by_cases he : b = a
      · simp [he]
      · simp [he, Ne.symm he]
  | @serve log queue b h ih =>
      rw [pending_serve]
      have hFresh := (List.nodup_cons.mp h.nodup).1
      by_cases he : b = a
      · subst he
        simpa using hFresh
      · rw [if_neg he, ← ih, List.mem_cons]
        simp [Ne.symm he]
  | idle h ih => rw [pending_idle, ih]

end Pending
end Fifo
