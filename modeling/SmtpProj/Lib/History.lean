import SmtpProj.Lib.Run

/-!
Runs that keep a history.

A property of a run often speaks of what happened in it and not of the state it
is in. `logged` runs a system together with the list of what its steps were
seen to do; the list is only ever added to, and the steps do not read it. So
every run of the system is a run with exactly one history, and an invariant of
the pair is a property of both.

`Since` is the operator of past time over such a list: something happened, and
from then on everything that happened was harmless. It is unrolled at the end
of the list, where the steps add to it. A list that is split at some of its
entries grows at the end of its last part.
-/

namespace SmtpProj.Lib

variable {ε σ α β : Type} {step : σ → α → Except ε σ} {out : σ → α → σ → List β}

/-! ### Histories -/

def logged (step : σ → α → Except ε σ) (out : σ → α → σ → List β) (c : σ × List β) (a : α) :
    Except ε (σ × List β) :=
  step c.1 a >>= fun s' => .ok (s', c.2 ++ out c.1 a s')

theorem logged_eq_ok {c c' : σ × List β} {a : α} :
    logged step out c a = .ok c' ↔ step c.1 a = .ok c'.1 ∧ c'.2 = c.2 ++ out c.1 a c'.1 := by
  unfold logged
  rw [bind_eq_ok]
  constructor
  · rintro ⟨s', hs, h⟩
    cases h
    exact ⟨hs, rfl⟩
  · rintro ⟨hs, hh⟩
    exact ⟨c'.1, hs, by rw [← hh]⟩

theorem run_logged_cons_ok {s s' : σ} {a : α} {as : List α} {hist : List β}
    (h : step s a = .ok s') :
    run (logged step out) (s, hist) (a :: as) =
      run (logged step out) (s', hist ++ out s a s') as :=
  run_cons_ok (logged_eq_ok.mpr ⟨h, rfl⟩)

/-- The history does not steer the system. -/
theorem exists_run_logged {s s' : σ} {as : List α} (h : run step s as = .ok s')
    (hist : List β) : ∃ hist', run (logged step out) (s, hist) as = .ok (s', hist') := by
  induction as generalizing s hist with
  | nil =>
      cases h
      exact ⟨hist, rfl⟩
  | cons a as ih =>
      obtain ⟨s₁, hs₁, hrest⟩ := bind_eq_ok.mp h
      obtain ⟨hist', hrun⟩ := ih hrest (hist ++ out s a s₁)
      exact ⟨hist', (run_logged_cons_ok hs₁).trans hrun⟩

theorem run_of_run_logged {c c' : σ × List β} {as : List α}
    (h : run (logged step out) c as = .ok c') : run step c.1 as = .ok c'.1 := by
  induction as generalizing c with
  | nil =>
      cases h
      rfl
  | cons a as ih =>
      obtain ⟨c₁, hc₁, hrest⟩ := bind_eq_ok.mp h
      exact (run_cons_ok (logged_eq_ok.mp hc₁).1).trans (ih hrest)

theorem guarded_logged {G : σ → α → Prop} {s : σ} {as : List α} (h : Guarded step G s as)
    (hist : List β) : Guarded (logged step out) (fun c a => G c.1 a) (s, hist) as := by
  induction as generalizing s hist with
  | nil => trivial
  | cons a as ih =>
      rintro ⟨s₁, hist₁⟩ h₁
      obtain ⟨hg, hrest⟩ := h s₁ (logged_eq_ok.mp h₁).1
      exact ⟨hg, ih hrest hist₁⟩

theorem along_logged {Q : σ → α → Prop} {s : σ} {as : List α} (h : Along step Q s as)
    (hist : List β) : Along (logged step out) (fun c a => Q c.1 a) (s, hist) as := by
  induction as generalizing s hist with
  | nil => trivial
  | cons a as ih =>
      refine ⟨h.1, ?_⟩
      rintro ⟨s₁, hist₁⟩ h₁
      exact ih (h.2 s₁ (logged_eq_ok.mp h₁).1) hist₁

/-! ### Past time -/

/-- At some entry `P` held, of the history before it and of the entry, and all
entries behind it satisfy `Q`. -/
def Since (P : List β → β → Prop) (Q : β → Prop) (hist : List β) : Prop :=
  ∃ before x behind, hist = before ++ x :: behind ∧ P before x ∧ ∀ y ∈ behind, Q y

variable {P : List β → β → Prop} {Q : β → Prop} {hist : List β} {x : β}

@[simp] theorem not_since_nil : ¬Since P Q [] := by
  rintro ⟨before, x, behind, h, -⟩
  simp at h

/-- The last entry of a history is the one pointed at, or one behind it. -/
theorem concat_eq_append_cons {before behind : List β} {y : β} :
    hist ++ [x] = before ++ y :: behind ↔
      (behind = [] ∧ hist = before ∧ x = y) ∨
        ∃ rest, behind = rest ++ [x] ∧ hist = before ++ y :: rest := by
  constructor
  · intro h
    rcases List.eq_nil_or_concat behind with rfl | ⟨rest, z, rfl⟩
    · obtain ⟨rfl, hlast⟩ := List.append_inj' h rfl
      exact .inl ⟨rfl, rfl, by simpa using hlast⟩
    · have h' : hist ++ [x] = (before ++ y :: rest) ++ [z] := by simpa using h
      obtain ⟨rfl, hlast⟩ := List.append_inj' h' rfl
      obtain rfl : x = z := by simpa using hlast
      exact .inr ⟨rest, by simp, rfl⟩
  · rintro (⟨rfl, rfl, rfl⟩ | ⟨rest, rfl, rfl⟩) <;> simp

theorem since_concat : Since P Q (hist ++ [x]) ↔ P hist x ∨ (Since P Q hist ∧ Q x) := by
  constructor
  · rintro ⟨before, y, behind, h, hP, hQ⟩
    rcases concat_eq_append_cons.mp h with ⟨-, rfl, rfl⟩ | ⟨rest, rfl, rfl⟩
    · exact .inl hP
    · exact .inr ⟨⟨before, y, rest, rfl, hP, fun w hw => hQ w (by simp [hw])⟩, hQ x (by simp)⟩
  · rintro (hP | ⟨⟨before, y, behind, rfl, hP, hQ⟩, hx⟩)
    · exact ⟨hist, x, [], rfl, hP, by simp⟩
    · refine ⟨before, y, behind ++ [x], by simp, hP, fun w hw => ?_⟩
      rcases List.mem_append.mp hw with hw | hw
      · exact hQ w hw
      · rw [List.mem_singleton.mp hw]
        exact hx

/-- What was since an entry was also since an entry before it, if nothing in
between harms it. -/
theorem Since.before {R : List β → β → Prop} {Q₁ : β → Prop}
    (h : Since R Q₁ hist) (hR : ∀ before x, R before x → Since P Q before ∧ Q x)
    (hQ : ∀ y, Q₁ y → Q y) : Since P Q hist := by
  obtain ⟨before, x, behind, rfl, hx, hbehind⟩ := h
  obtain ⟨⟨before', x', behind', rfl, hx', hbehind'⟩, hQx⟩ := hR before x hx
  refine ⟨before', x', behind' ++ x :: behind, by simp, hx', fun y hy => ?_⟩
  rcases List.mem_append.mp hy with hy | hy
  · exact hbehind' y hy
  · rcases List.mem_cons.mp hy with rfl | hy
    · exact hQx
    · exact hQ y (hbehind y hy)

/-! ### Parts -/

/-- What is added to a list, and is no place to split it at, belongs to its last
part. -/
theorem splitOnP_append_of_neg {p : β → Bool} {added cur : List β} {closed : List (List β)}
    (hadded : ∀ y ∈ added, p y = false) (h : hist.splitOnP p = closed ++ [cur]) :
    (hist ++ added).splitOnP p = closed ++ [cur ++ added] := by
  induction hist generalizing closed cur with
  | nil =>
      obtain ⟨rfl, rfl⟩ : closed = [] ∧ cur = [] := by
        cases closed <;> simp_all
      simpa using List.splitOnP_eq_singleton hadded
  | cons y ys ih =>
      obtain ⟨closed₀, cur₀, hsplit⟩ : ∃ closed₀ cur₀, ys.splitOnP p = closed₀ ++ [cur₀] := by
        rcases List.eq_nil_or_concat (ys.splitOnP p) with hnil | ⟨closed₀, cur₀, hsplit⟩
        · exact absurd hnil (List.splitOnP_ne_nil p ys)
        · exact ⟨closed₀, cur₀, by simpa using hsplit⟩
      have hsplit' := ih hsplit
      rw [List.splitOnP_cons_eq_if_modifyHead, hsplit] at h
      rw [List.cons_append, List.splitOnP_cons_eq_if_modifyHead, hsplit']
      split_ifs at h ⊢ with hy
      · have h' : ([] :: closed₀) ++ [cur₀] = closed ++ [cur] := h
        obtain ⟨rfl, hlast⟩ := List.append_inj' h' rfl
        obtain rfl : cur₀ = cur := by simpa using hlast
        rfl
      · cases closed₀ with
        | nil =>
            have h' : [] ++ [y :: cur₀] = closed ++ [cur] := h
            obtain ⟨rfl, hlast⟩ := List.append_inj' h' rfl
            obtain rfl : y :: cur₀ = cur := by simpa using hlast
            rfl
        | cons first closed₁ =>
            have h' : ((y :: first) :: closed₁) ++ [cur₀] = closed ++ [cur] := h
            obtain ⟨rfl, hlast⟩ := List.append_inj' h' rfl
            obtain rfl : cur₀ = cur := by simpa using hlast
            rfl

end SmtpProj.Lib
