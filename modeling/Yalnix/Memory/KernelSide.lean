import Yalnix.Memory.KernelMemory
import Yalnix.Memory.Operations
import Yalnix.Memory.Pages

/-! What the memory modules share. Everything in `user_memory.c` and in the
loader works on page tables of region 1 and on frames; region 0, the kernel
stacks and the choice of the active process are another side of the memory. -/
namespace Yalnix

open Hardware

/-- The part of the memory that belongs to the kernel itself. -/
structure KernelSide where
  region0Pt : PageTable
  currentBrkPage : Int
  vmEnabled : Bool
  ksPt : Proc → PageTable
  active : Proc
  ptbr1 : Proc

namespace Memory

def kernelSide (m : Memory) : KernelSide :=
  ⟨m.region0Pt, m.currentBrkPage, m.vmEnabled, m.ksPt, m.active, m.ptbr1⟩

end Memory

namespace UserMemory

variable [Hardware] {m m' : Memory}

theorem Step.kernelSide (h : Step m m') : m'.kernelSide = m.kernelSide := by
  cases h with
  | alloc vpn prot =>
      unfold allocPage
      split
      · rfl
      · split_ifs <;> rfl
  | dealloc vpn =>
      unfold deallocPage
      split_ifs <;> rfl
  | protect vpn prot =>
      unfold changeProt
      split_ifs <;> rfl
  | bounds ctx hTable => rfl
  | write addr byte hPerms => rfl

theorem Steps.kernelSide (h : Steps m m') : m'.kernelSide = m.kernelSide := by
  induction h with
  | refl => rfl
  | tail hBefore hLast ih => exact hLast.kernelSide.trans ih

theorem kernelSide_allocPage (m : Memory) (vpn : Int) (prot : Prot) :
    (allocPage m vpn prot).1.kernelSide = m.kernelSide := (Step.alloc vpn prot).kernelSide

theorem kernelSide_unmapNoFree (m : Memory) (vpn : Int) :
    (unmapNoFree m vpn).1.kernelSide = m.kernelSide := by
  unfold unmapNoFree
  split_ifs <;> rfl

omit [Hardware] in
/-- A loop over pages keeps what its body keeps. -/
theorem kernelSide_foldl {body : Memory → Int → Memory}
    (hBody : ∀ m vpn, (body m vpn).kernelSide = m.kernelSide) (m : Memory) (pages : List Int) :
    (pages.foldl body m).kernelSide = m.kernelSide := by
  induction pages generalizing m with
  | nil => rfl
  | cons vpn pages ih => rw [List.foldl_cons, ih, hBody]

theorem kernelSide_destroyPt (m : Memory) (pt : PageTable) (first last : Int) :
    (destroyPt m pt first last).kernelSide = m.kernelSide := by
  apply kernelSide_foldl
  intro m vpn
  split_ifs <;> rfl

theorem kernelSide_copyFrame {target source : Int} (h : copyFrame m target source = .ok m') :
    m'.kernelSide = m.kernelSide := by
  unfold copyFrame at h
  dsimp only at h
  split_ifs at h
  obtain rfl := Except.ok.inj h
  rfl

theorem kernelSide_copyPages {child : Proc} {brkPage : Int} {pages : List (Int × Prot)} {ok : Bool}
    (h : copyPages m child brkPage pages = .ok (m', ok)) : m'.kernelSide = m.kernelSide := by
  induction pages generalizing m with
  | nil =>
      obtain ⟨rfl, -⟩ := Prod.mk.inj (Except.ok.inj h)
      rfl
  | cons page pages ih =>
      have hPage := kernelSide_allocPage m brkPage .readWrite
      unfold copyPages at h
      split at h
      · rename_i next hAlloc
        rw [hAlloc] at hPage
        obtain ⟨rfl, -⟩ := Prod.mk.inj (Except.ok.inj h)
        rw [kernelSide_destroyPt, hPage]
      · rename_i next hAlloc
        rw [hAlloc] at hPage
        obtain ⟨copied, hCopy, h⟩ := Transition.bind_eq_ok.mp h
        rw [ih h]
        exact (kernelSide_unmapNoFree copied brkPage).trans ((kernelSide_copyFrame hCopy).trans hPage)

theorem kernelSide_ucCopy {sp : Word} {child : Proc} {ok : Bool} (h : ucCopy m sp child = .ok (m', ok)) :
    m'.kernelSide = m.kernelSide := by
  unfold ucCopy at h
  dsimp only at h
  split_ifs at h
  · obtain ⟨rfl, -⟩ := Prod.mk.inj (Except.ok.inj h)
    rfl
  · obtain ⟨⟨copied, done⟩, hCopy, h⟩ := Transition.bind_eq_ok.mp h
    have hPages := kernelSide_copyPages hCopy
    cases done with
    | false =>
        obtain ⟨rfl, -⟩ := Prod.mk.inj (Except.ok.inj h)
        exact hPages
    | true =>
        obtain ⟨rfl, -⟩ := Prod.mk.inj (Except.ok.inj h)
        exact hPages

end UserMemory
end Yalnix
