import Mathlib.Data.Set.Function
import Mathlib.Data.List.Basic

/-!
Mailboxes that readers may share.

A reader `r` takes its messages from the box `key r`, the oldest first. A message
names the reader that it is for, but a box does not look at the name: where two
readers have one box, each takes what is for the other.

Readers with boxes of their own get exactly what is for them (`Addressed.own`), in
the order it was posted in (`pending_post`, `Addressed.pending_drop`), and what is
kept for one of them does not change with what the others do
(`pending_post_of_ne`, `Addressed.pending_drop_of_ne`).
-/

namespace SmtpProj.Lib

/-- The boxes, each with its messages and whom they are for. -/
abbrev Mailboxes (κ ρ μ : Type) := κ → List (ρ × μ)

namespace Mailboxes

variable {κ ρ μ : Type} [DecidableEq κ] [DecidableEq ρ]

def post (key : ρ → κ) (r : ρ) (x : μ) (b : Mailboxes κ ρ μ) : Mailboxes κ ρ μ :=
  Function.update b (key r) (b (key r) ++ [(r, x)])

def drop (key : ρ → κ) (r : ρ) (b : Mailboxes κ ρ μ) : Mailboxes κ ρ μ :=
  Function.update b (key r) (b (key r)).tail

def pending (key : ρ → κ) (r : ρ) (b : Mailboxes κ ρ μ) : List μ :=
  (b (key r)).filterMap fun m => if m.1 = r then some m.2 else none

/-- Every message is for one of the readers, and in the box of that one. -/
def Addressed (key : ρ → κ) (readers : Set ρ) (b : Mailboxes κ ρ μ) : Prop :=
  ∀ k, ∀ m ∈ b k, m.1 ∈ readers ∧ key m.1 = k

variable {key : ρ → κ} {readers : Set ρ} {b : Mailboxes κ ρ μ} {r r' : ρ} {x : μ} {k : κ}
  {m : ρ × μ} {rest : List (ρ × μ)}

omit [DecidableEq κ] [DecidableEq ρ] in
theorem addressed_empty : Addressed key readers (fun _ => [] : Mailboxes κ ρ μ) :=
  fun _ _ hm => absurd hm List.not_mem_nil

omit [DecidableEq ρ] in
theorem mem_post : m ∈ post key r x b k ↔ m ∈ b k ∨ k = key r ∧ m = (r, x) := by
  by_cases hk : k = key r
  · subst hk
    simp [post]
  · simp [post, hk]

omit [DecidableEq ρ] in
theorem of_mem_drop (hm : m ∈ drop key r b k) : m ∈ b k := by
  by_cases hk : k = key r
  · subst hk
    rw [drop, Function.update_self] at hm
    exact List.mem_of_mem_tail hm
  · rwa [drop, Function.update_of_ne hk] at hm

omit [DecidableEq ρ] in
theorem Addressed.post (h : Addressed key readers b) (hr : r ∈ readers) :
    Addressed key readers (post key r x b) := by
  intro k m hm
  rcases mem_post.mp hm with hm | ⟨rfl, rfl⟩
  · exact h k m hm
  · exact ⟨hr, rfl⟩

omit [DecidableEq ρ] in
theorem Addressed.drop (h : Addressed key readers b) : Addressed key readers (drop key r b) :=
  fun k m hm => h k m (of_mem_drop hm)

omit [DecidableEq κ] [DecidableEq ρ] in
/-- A reader with a box of its own finds nothing in it that is for another. -/
theorem Addressed.own (h : Addressed key readers b) (hinj : Set.InjOn key readers)
    (hr : r ∈ readers) (hm : m ∈ b (key r)) : m.1 = r :=
  hinj (h _ m hm).1 hr (h _ m hm).2

@[simp] theorem pending_post : pending key r (post key r x b) = pending key r b ++ [x] := by
  simp [pending, post]

theorem pending_post_of_ne (hne : r' ≠ r) : pending key r' (post key r x b) = pending key r' b := by
  by_cases hk : key r' = key r
  · simp [pending, post, hk, hne.symm]
  · simp [pending, post, hk]

omit [DecidableEq κ] in
theorem pending_cons (hbox : b (key r) = m :: rest) (hm : m.1 = r) :
    pending key r b = m.2 :: rest.filterMap fun m => if m.1 = r then some m.2 else none := by
  simp [pending, hbox, hm]

theorem Addressed.pending_drop (h : Addressed key readers b) (hinj : Set.InjOn key readers)
    (hr : r ∈ readers) (hbox : b (key r) = m :: rest) :
    pending key r b = m.2 :: pending key r (Mailboxes.drop key r b) := by
  have hm : m.1 = r := h.own hinj hr (by simp [hbox])
  rw [pending_cons hbox hm, pending, Mailboxes.drop, Function.update_self, hbox, List.tail_cons]

theorem Addressed.pending_drop_of_ne (h : Addressed key readers b)
    (hinj : Set.InjOn key readers) (hr : r ∈ readers) (hne : r' ≠ r) :
    pending key r' (Mailboxes.drop key r b) = pending key r' b := by
  by_cases hk : key r' = key r
  · have hnone : ∀ m ∈ b (key r), (if m.1 = r' then some m.2 else none) = none := fun m hm =>
      if_neg fun heq => hne (heq.symm.trans (h.own hinj hr hm))
    rw [pending, pending, hk, Mailboxes.drop, Function.update_self,
      List.filterMap_eq_nil_iff.mpr hnone, List.filterMap_eq_nil_iff.mpr]
    exact fun m hm => hnone m (List.mem_of_mem_tail hm)
  · rw [pending, pending, Mailboxes.drop, Function.update_of_ne hk]

end Mailboxes

end SmtpProj.Lib
