import Mathlib.Data.List.Basic

/-!
Runs of a system whose steps may stop it.

A step is a function `σ → α → Except ε σ`: in state `s` the action `a` either
completes in a new state or stops the system for a reason of type `ε`. A run
is a list of actions taken one after the other; it completes when all of them
do.

A few rules carry every proof about runs. `Ends` says what one computation may
end in, and composes along `bind`. `run_invariant` takes a
property that each guarded step keeps to every guarded run, and
`always_iff_guarded` does it in both directions, for a property that a step
keeps exactly when its guard holds. Five rules are about two runs:
`run_simulation` matches a run step by step with a run of another system,
`run_abstraction` with the run of its image, `run_refinement` with a run of
another system that has a step, or none, for each of its own, `run_unwinding`
with the run of a chosen subset of its own actions, and `run_insertion` with a
run that has further actions in between.
-/

namespace SmtpProj.Lib

variable {ε σ τ α : Type}

/-! ### One computation -/

/-- The computation completes with a result that satisfies `P`, or stops for a
reason that satisfies `E`. -/
def Ends (P : σ → Prop) (E : ε → Prop) (x : Except ε σ) : Prop :=
  (∃ e, x = .error e ∧ E e) ∨ ∃ s, x = .ok s ∧ P s

theorem Ends.ok {P : σ → Prop} {E : ε → Prop} {s : σ} (h : P s) :
    Ends P E (.ok s : Except ε σ) := .inr ⟨s, rfl, h⟩

theorem Ends.error {P : σ → Prop} {E : ε → Prop} {e : ε} (h : E e) :
    Ends P E (.error e : Except ε σ) := .inl ⟨e, rfl, h⟩

theorem Ends.mono {P Q : σ → Prop} {E : ε → Prop} {x : Except ε σ} (h : Ends P E x)
    (hPQ : ∀ s, P s → Q s) : Ends Q E x :=
  h.imp_right fun ⟨s, hs, hP⟩ => ⟨s, hs, hPQ s hP⟩

theorem Ends.bind {P : σ → Prop} {Q : τ → Prop} {E : ε → Prop} {x : Except ε σ}
    {f : σ → Except ε τ} (hx : Ends P E x) (hf : ∀ s, P s → Ends Q E (f s)) :
    Ends Q E (x >>= f) := by
  rcases hx with ⟨e, rfl, he⟩ | ⟨s, rfl, hs⟩
  · exact .error he
  · exact hf s hs

theorem Ends.of_ok {P : σ → Prop} {E : ε → Prop} {x : Except ε σ} {s : σ} (h : Ends P E x)
    (hx : x = .ok s) : P s := by
  subst hx
  rcases h with ⟨e, he, -⟩ | ⟨s', hs', hP⟩
  · cases he
  · cases hs'
    exact hP

theorem Ends.of_error {P : σ → Prop} {E : ε → Prop} {x : Except ε σ} {e : ε} (h : Ends P E x)
    (hx : x = .error e) : E e := by
  subst hx
  rcases h with ⟨e', he', hE⟩ | ⟨s', hs', -⟩
  · cases he'
    exact hE
  · cases hs'

/-- What a completed `bind` was composed of. -/
theorem bind_eq_ok {x : Except ε σ} {f : σ → Except ε τ} {t : τ} :
    (x >>= f) = .ok t ↔ ∃ s, x = .ok s ∧ f s = .ok t := by
  cases x with
  | error e =>
      constructor
      · intro h
        cases h
      · rintro ⟨s, hs, -⟩
        cases hs
  | ok s =>
      constructor
      · intro h
        exact ⟨s, rfl, h⟩
      · rintro ⟨s', hs, h⟩
        cases hs
        exact h

theorem bind_eq_error {x : Except ε σ} {f : σ → Except ε τ} {e : ε} :
    (x >>= f) = .error e ↔ x = .error e ∨ ∃ s, x = .ok s ∧ f s = .error e := by
  cases x with
  | error e' => simp [bind, Except.bind]
  | ok s => simp [bind, Except.bind]

/-! ### Runs -/

/-- The state after the actions, taken in order, if none of them stops the
system. -/
def run (step : σ → α → Except ε σ) : σ → List α → Except ε σ
  | s, [] => .ok s
  | s, a :: as => step s a >>= fun s' => run step s' as

variable {step : σ → α → Except ε σ} {s s' : σ} {a : α} {as bs : List α}

@[simp] theorem run_nil : run step s [] = .ok s := rfl

theorem run_cons : run step s (a :: as) = step s a >>= fun s' => run step s' as := rfl

theorem run_cons_ok (h : step s a = .ok s') : run step s (a :: as) = run step s' as := by
  rw [run_cons, h]
  rfl

@[simp] theorem run_singleton : run step s [a] = step s a := by
  rw [run_cons]
  cases step s a <;> rfl

theorem run_append :
    run step s (as ++ bs) = run step s as >>= fun s' => run step s' bs := by
  induction as generalizing s with
  | nil => rfl
  | cons a as ih =>
      rw [List.cons_append, run_cons, run_cons]
      cases step s a with
      | error e => rfl
      | ok s' => exact ih

theorem run_append_ok (h : run step s as = .ok s') :
    run step s (as ++ bs) = run step s' bs := by
  rw [run_append, h]
  rfl

/-- A run that comes to `a` consists of a run before it, its step, and a run
behind it. -/
theorem run_around (h : run step s (as ++ a :: bs) = .ok s') :
    ∃ s₁ s₂, run step s as = .ok s₁ ∧ step s₁ a = .ok s₂ ∧ run step s₂ bs = .ok s' := by
  rw [run_append] at h
  obtain ⟨s₁, hbefore, hrest⟩ := bind_eq_ok.mp h
  obtain ⟨s₂, hstep, hbehind⟩ := bind_eq_ok.mp hrest
  exact ⟨s₁, s₂, hbefore, hstep, hbehind⟩

@[simp] theorem run_map {β : Type} (f : β → α) (bs : List β) :
    run step s (bs.map f) = run (fun s b => step s (f b)) s bs := by
  induction bs generalizing s with
  | nil => rfl
  | cons b bs ih =>
      rw [List.map_cons, run_cons, run_cons]
      exact bind_congr fun s' => ih

/-- A run of small steps is a run of the large steps they make up. -/
theorem run_flatMap {β : Type} {large : σ → β → Except ε σ} {small : β → List α}
    (h : ∀ s b, run step s (small b) = large s b) (bs : List β) :
    run step s (bs.flatMap small) = run large s bs := by
  induction bs generalizing s with
  | nil => rfl
  | cons b bs ih =>
      rw [List.flatMap_cons, run_append, h, run_cons]
      exact bind_congr fun s' => ih

/-- Every step of the run that completes was taken in a state that meets the
guard. -/
def Guarded (step : σ → α → Except ε σ) (G : σ → α → Prop) : σ → List α → Prop
  | _, [] => True
  | s, a :: as => ∀ s', step s a = .ok s' → G s a ∧ Guarded step G s' as

def Always (step : σ → α → Except ε σ) (P : σ → Prop) : σ → List α → Prop
  | s, [] => P s
  | s, a :: as => P s ∧ ∀ s', step s a = .ok s' → Always step P s' as

theorem Always.head {P : σ → Prop} (h : Always step P s as) : P s := by
  cases as with
  | nil => exact h
  | cons a as => exact h.1

theorem Always.last {P : σ → Prop} (h : Always step P s as) (hrun : run step s as = .ok s') :
    P s' := by
  induction as generalizing s with
  | nil => cases hrun; exact h
  | cons a as ih =>
      obtain ⟨s₁, hstep, hrest⟩ := bind_eq_ok.mp hrun
      exact ih (h.2 s₁ hstep) hrest

theorem Always.mono {P Q : σ → Prop} (h : Always step P s as) (hPQ : ∀ s, P s → Q s) :
    Always step Q s as := by
  induction as generalizing s with
  | nil => exact hPQ s h
  | cons a as ih => exact ⟨hPQ s h.1, fun s₁ hstep => ih (h.2 s₁ hstep)⟩

/-- A property that every guarded step keeps holds all along a guarded run. -/
theorem run_always {P : σ → Prop} {G : σ → α → Prop}
    (hstep : ∀ s a s', P s → G s a → step s a = .ok s' → P s')
    (h₀ : P s) (hG : Guarded step G s as) : Always step P s as := by
  induction as generalizing s with
  | nil => exact h₀
  | cons a as ih =>
      refine ⟨h₀, fun s₁ h₁ => ?_⟩
      obtain ⟨hg, hrest⟩ := hG s₁ h₁
      exact ih (hstep s a s₁ h₀ hg h₁) hrest

theorem run_invariant {P : σ → Prop} {G : σ → α → Prop}
    (hstep : ∀ s a s', P s → G s a → step s a = .ok s' → P s')
    (h₀ : P s) (hG : Guarded step G s as) (hrun : run step s as = .ok s') : P s' :=
  (run_always hstep h₀ hG).last hrun

/-- A step that keeps the property need only be looked at for the actions of the
run. -/
theorem run_invariant_of_mem {P : σ → Prop} {G : σ → α → Prop}
    (hstep : ∀ s, ∀ a ∈ as, ∀ s', P s → G s a → step s a = .ok s' → P s')
    (h₀ : P s) (hG : Guarded step G s as) (hrun : run step s as = .ok s') : P s' := by
  induction as generalizing s with
  | nil =>
      cases hrun
      exact h₀
  | cons a as ih =>
      obtain ⟨s₁, h₁, hrest⟩ := bind_eq_ok.mp hrun
      obtain ⟨hg, hGrest⟩ := hG s₁ h₁
      exact ih (fun s b hb => hstep s b (by simp [hb])) (hstep s a (by simp) s₁ h₀ hg h₁) hGrest
        hrest

theorem guarded_true (s : σ) (as : List α) : Guarded step (fun _ _ => True) s as := by
  induction as generalizing s with
  | nil => trivial
  | cons a as ih => exact fun s₁ _ => ⟨trivial, ih s₁⟩

theorem guarded_of_forall {G : σ → α → Prop} (h : ∀ a ∈ as, ∀ s, G s a) :
    Guarded step G s as := by
  induction as generalizing s with
  | nil => trivial
  | cons a as ih =>
      exact fun s₁ _ => ⟨h a (by simp) s, ih fun b hb => h b (by simp [hb])⟩

theorem Guarded.and {G G' : σ → α → Prop} (h : Guarded step G s as) (h' : Guarded step G' s as) :
    Guarded step (fun s a => G s a ∧ G' s a) s as := by
  induction as generalizing s with
  | nil => trivial
  | cons a as ih =>
      exact fun s₁ h₁ => ⟨⟨(h s₁ h₁).1, (h' s₁ h₁).1⟩, ih (h s₁ h₁).2 (h' s₁ h₁).2⟩

/-- When a completing step that is taken as `D` allows keeps `P` exactly if its
guard holds, a run that is taken as `D` allows keeps `P` throughout exactly if
all its completing steps meet the guard. The side condition `I` is an invariant
of every such step. -/
theorem always_iff_guarded_of {P I : σ → Prop} {G D : σ → α → Prop}
    (hI : ∀ s a s', I s → P s → D s a → step s a = .ok s' → I s')
    (hstep : ∀ s a s', I s → P s → D s a → step s a = .ok s' → (P s' ↔ G s a))
    (hI₀ : I s) (h₀ : P s) (hD : Guarded step D s as) :
    Always step P s as ↔ Guarded step G s as := by
  induction as generalizing s with
  | nil => exact ⟨fun _ => trivial, fun _ => h₀⟩
  | cons a as ih =>
      constructor
      · rintro ⟨-, h⟩ s₁ h₁
        have hP₁ : P s₁ := (h s₁ h₁).head
        obtain ⟨ha, hrest⟩ := hD s₁ h₁
        exact ⟨(hstep s a s₁ hI₀ h₀ ha h₁).mp hP₁,
          (ih (hI s a s₁ hI₀ h₀ ha h₁) hP₁ hrest).mp (h s₁ h₁)⟩
      · intro h
        refine ⟨h₀, fun s₁ h₁ => ?_⟩
        obtain ⟨hg, hrest⟩ := h s₁ h₁
        obtain ⟨ha, hDrest⟩ := hD s₁ h₁
        have hP₁ : P s₁ := (hstep s a s₁ hI₀ h₀ ha h₁).mpr hg
        exact (ih (hI s a s₁ hI₀ h₀ ha h₁) hP₁ hDrest).mpr hrest

/-- The same for runs that are taken in any way. -/
theorem always_iff_guarded {P I : σ → Prop} {G : σ → α → Prop}
    (hI : ∀ s a s', I s → P s → step s a = .ok s' → I s')
    (hstep : ∀ s a s', I s → P s → step s a = .ok s' → (P s' ↔ G s a))
    (hI₀ : I s) (h₀ : P s) : Always step P s as ↔ Guarded step G s as :=
  always_iff_guarded_of (fun s a s' hI₁ hP _ => hI s a s' hI₁ hP)
    (fun s a s' hI₁ hP _ => hstep s a s' hI₁ hP) hI₀ h₀ (guarded_true s as)

/-- Every action of the run has the property in the state it is taken in, the
one that stops the run included. -/
def Along (step : σ → α → Except ε σ) (Q : σ → α → Prop) : σ → List α → Prop
  | _, [] => True
  | s, a :: as => Q s a ∧ ∀ s', step s a = .ok s' → Along step Q s' as

theorem along_cons_ok {Q : σ → α → Prop} (h : step s a = .ok s') :
    Along step Q s (a :: as) ↔ Q s a ∧ Along step Q s' as :=
  and_congr_right fun _ => ⟨fun hrest => hrest s' h, fun hrest s₁ h₁ => by
    rw [h] at h₁
    cases h₁
    exact hrest⟩

/-- On a given run a decidable property of the steps can be evaluated. -/
instance decidableAlong {Q : σ → α → Prop} [∀ s a, Decidable (Q s a)] :
    ∀ s as, Decidable (Along step Q s as)
  | _, [] => isTrue trivial
  | s, a :: as =>
      match h : step s a with
      | .ok s' =>
          have := decidableAlong (Q := Q) s' as
          decidable_of_iff (Q s a ∧ Along step Q s' as) (along_cons_ok h).symm
      | .error e =>
          decidable_of_iff (Q s a) ⟨fun hq => ⟨hq, fun s' h' => by
            rw [h] at h'
            cases h'⟩, And.left⟩

/-- What is said of the result of a computation can be evaluated with it. -/
instance decidableForallOk {x : Except ε σ} {P : σ → Prop} [DecidablePred P] :
    Decidable (∀ s, x = .ok s → P s) :=
  match x with
  | .ok s => decidable_of_iff (P s) ⟨fun h s' hs => by
      cases hs
      exact h, fun h => h s rfl⟩
  | .error _ => isTrue fun s hs => by cases hs

theorem Along.of_run {Q : σ → α → Prop} (h : Along step Q s (as ++ a :: bs))
    (hrun : run step s as = .ok s') : Q s' a := by
  induction as generalizing s with
  | nil =>
      cases hrun
      exact h.1
  | cons b as ih =>
      obtain ⟨s₁, hstep, hrest⟩ := bind_eq_ok.mp hrun
      exact ih (h.2 s₁ hstep) hrest

theorem Along.guarded {G : σ → α → Prop} (h : Along step G s as) : Guarded step G s as := by
  induction as generalizing s with
  | nil => trivial
  | cons a as ih => exact fun s₁ h₁ => ⟨h.1, ih (h.2 s₁ h₁)⟩

/-- A guard that is met along the run keeps an invariant, and the invariant
with the guard yields the property. -/
theorem along_of_invariant {Q G : σ → α → Prop} {I : σ → Prop}
    (hI : ∀ s a s', I s → G s a → step s a = .ok s' → I s')
    (hQ : ∀ s a, I s → G s a → Q s a) (hI₀ : I s) (hG : Along step G s as) :
    Along step Q s as := by
  induction as generalizing s with
  | nil => trivial
  | cons a as ih =>
      exact ⟨hQ s a hI₀ hG.1, fun s₁ h₁ => ih (hI s a s₁ hI₀ hG.1 h₁) (hG.2 s₁ h₁)⟩

/-- Two properties of a step that agree where the invariant holds agree along
every run, if the steps that have them keep the invariant. -/
theorem along_congr_of {Q Q' : σ → α → Prop} {I : σ → Prop}
    (hI : ∀ s a s', I s → Q s a → step s a = .ok s' → I s')
    (hQ : ∀ s, ∀ a ∈ as, I s → (Q s a ↔ Q' s a)) (hI₀ : I s) :
    Along step Q s as ↔ Along step Q' s as := by
  induction as generalizing s with
  | nil => exact Iff.rfl
  | cons a as ih =>
      have hq : Q s a ↔ Q' s a := hQ s a (by simp) hI₀
      have hrest : Q s a → ∀ s₁, step s a = .ok s₁ →
          (Along step Q s₁ as ↔ Along step Q' s₁ as) :=
        fun ha s₁ h₁ => ih (fun s b hb => hQ s b (by simp [hb])) (hI s a s₁ hI₀ ha h₁)
      constructor
      · rintro ⟨ha, h⟩
        exact ⟨hq.mp ha, fun s₁ h₁ => (hrest ha s₁ h₁).mp (h s₁ h₁)⟩
      · rintro ⟨ha, h⟩
        exact ⟨hq.mpr ha, fun s₁ h₁ => (hrest (hq.mpr ha) s₁ h₁).mpr (h s₁ h₁)⟩

theorem along_congr {Q Q' : σ → α → Prop} {I : σ → Prop}
    (hI : ∀ s a s', I s → step s a = .ok s' → I s')
    (hQ : ∀ s, ∀ a ∈ as, I s → (Q s a ↔ Q' s a)) (hI₀ : I s) :
    Along step Q s as ↔ Along step Q' s as :=
  along_congr_of (fun s a s' h _ hstep => hI s a s' h hstep) hQ hI₀

theorem along_congr_after {Q Q' : σ → α → Prop} {I : σ → Prop} (hfirst : Q s a ↔ Q' s a)
    (hI₀ : ∀ s', step s a = .ok s' → I s')
    (hI : ∀ s a s', I s → step s a = .ok s' → I s')
    (hQ : ∀ s, ∀ a ∈ as, I s → (Q s a ↔ Q' s a)) :
    Along step Q s (a :: as) ↔ Along step Q' s (a :: as) :=
  and_congr hfirst <| forall_congr' fun s₁ => forall_congr' fun h₁ =>
    along_congr hI hQ (hI₀ s₁ h₁)

/-- What every step from a state with `P` ends in, a run from there ends in. -/
theorem run_ends {P : σ → Prop} {E : ε → Prop}
    (hstep : ∀ s, ∀ a ∈ as, P s → Ends P E (step s a)) (h₀ : P s) :
    Ends P E (run step s as) := by
  induction as generalizing s with
  | nil => exact .ok h₀
  | cons a as ih =>
      rw [run_cons]
      exact (hstep s a (by simp) h₀).bind fun s₁ h₁ =>
        ih (fun s b hb => hstep s b (by simp [hb])) h₁

/-! ### Two runs -/

/-- Simulation. If every guarded step is matched by a step of a second system,
a guarded run is matched by a run of it, action by action. -/
theorem run_simulation {β ε' : Type} {step' : τ → β → Except ε' τ} {R : σ → τ → Prop}
    {G : σ → α → Prop} {S : α → β → Prop}
    (hstep : ∀ s t a s', R s t → G s a → step s a = .ok s' →
      ∃ b t', S a b ∧ step' t b = .ok t' ∧ R s' t')
    {t : τ} (h₀ : R s t) (hG : Guarded step G s as) (hrun : run step s as = .ok s') :
    ∃ bs t', List.Forall₂ S as bs ∧ run step' t bs = .ok t' ∧ R s' t' := by
  induction as generalizing s t with
  | nil =>
      cases hrun
      exact ⟨[], t, .nil, rfl, h₀⟩
  | cons a as ih =>
      obtain ⟨s₁, hs₁, hrest⟩ := bind_eq_ok.mp hrun
      obtain ⟨hg, hGrest⟩ := hG s₁ hs₁
      obtain ⟨b, t₁, hab, ht₁, hR₁⟩ := hstep s t a s₁ h₀ hg hs₁
      obtain ⟨bs, t', hbs, ht', hR'⟩ := ih hR₁ hGrest hrest
      exact ⟨b :: bs, t', .cons hab hbs, (run_cons_ok ht₁).trans ht', hR'⟩

/-- Abstraction. If a system does the same to the images of its states and its
actions, wherever the invariant holds, a run has the outcome of its image. -/
theorem run_abstraction {β : Type} {step' : τ → β → Except ε τ} {f : σ → τ} {g : α → β}
    {I : σ → Prop} (hI : ∀ s a s', I s → step s a = .ok s' → I s')
    (hstep : ∀ s a, I s → (step s a).map f = step' (f s) (g a)) (h₀ : I s) :
    (run step s as).map f = run step' (f s) (as.map g) := by
  induction as generalizing s with
  | nil => rfl
  | cons a as ih =>
      rw [List.map_cons, run_cons, run_cons, ← hstep s a h₀]
      cases h : step s a with
      | error e => rfl
      | ok s₁ => exact ih (hI s a s₁ h₀ h)

/-- A run whose steps are each, seen through `f`, some of the steps that `g` names, is
a run of these. -/
theorem run_refinement {ε' β : Type} {step' : τ → β → Except ε' τ} {f : σ → τ} {g : α → List β}
    {I : σ → Prop} (hstep : ∀ s a s', I s → step s a = .ok s' →
      I s' ∧ ∃ bs, bs.Sublist (g a) ∧ run step' (f s) bs = .ok (f s'))
    (h₀ : I s) (hrun : run step s as = .ok s') :
    ∃ bs, bs.Sublist (as.flatMap g) ∧ run step' (f s) bs = .ok (f s') := by
  induction as generalizing s with
  | nil =>
      cases hrun
      exact ⟨[], .refl _, rfl⟩
  | cons a as ih =>
      obtain ⟨s₁, hs₁, hrest⟩ := bind_eq_ok.mp hrun
      obtain ⟨h₁, bs, hbs, hfirst⟩ := hstep s a s₁ h₀ hs₁
      obtain ⟨bs', hbs', hbehind⟩ := ih h₁ hrest
      exact ⟨bs ++ bs', hbs.append hbs', (run_append_ok hfirst).trans hbehind⟩

/-- Unwinding. A run is matched by the run of its own actions alone when own
actions keep the relation in both runs, and foreign actions keep it without
moving the second run. -/
theorem run_unwinding {R : σ → σ → Prop} {G : σ → α → Prop} {own : α → Bool}
    (hown : ∀ s t a s', R s t → G s a → own a = true → step s a = .ok s' →
      ∃ t', step t a = .ok t' ∧ R s' t')
    (hforeign : ∀ s t a s', R s t → G s a → own a = false → step s a = .ok s' → R s' t)
    {t : σ} (h₀ : R s t) (hG : Guarded step G s as) (hrun : run step s as = .ok s') :
    ∃ t', run step t (as.filter own) = .ok t' ∧ R s' t' := by
  induction as generalizing s t with
  | nil =>
      cases hrun
      exact ⟨t, rfl, h₀⟩
  | cons a as ih =>
      obtain ⟨s₁, hstep, hrest⟩ := bind_eq_ok.mp hrun
      obtain ⟨hg, hGrest⟩ := hG s₁ hstep
      cases ha : own a with
      | false =>
          rw [List.filter_cons_of_neg (by simp [ha])]
          exact ih (hforeign s t a s₁ h₀ hg ha hstep) hGrest hrest
      | true =>
          obtain ⟨t₁, htstep, hR₁⟩ := hown s t a s₁ h₀ hg ha hstep
          rw [List.filter_cons_of_pos ha, run_cons_ok htstep]
          exact ih hR₁ hGrest hrest

/-- The other way. The run of the own actions is matched by a run in which
foreign actions come in between, when these keep the relation and always
complete. `G` is met along the longer run, and `G'` along the shorter one. -/
theorem run_insertion {R : σ → σ → Prop} {G G' : σ → α → Prop} {own : α → Bool}
    (hown : ∀ s t a t', R s t → G s a → G' t a → own a = true → step t a = .ok t' →
      ∃ s', step s a = .ok s' ∧ R s' t')
    (hforeign : ∀ s t, ∀ a ∈ as, R s t → G s a → own a = false → ∃ s', step s a = .ok s' ∧ R s' t)
    {t t' : σ} (h₀ : R s t) (hG : Along step G s as) (hG' : Along step G' t (as.filter own))
    (hrun : run step t (as.filter own) = .ok t') : ∃ s', run step s as = .ok s' ∧ R s' t' := by
  induction as generalizing s t with
  | nil =>
      cases hrun
      exact ⟨s, rfl, h₀⟩
  | cons a as ih =>
      have hforeign' : ∀ s t, ∀ b ∈ as, R s t → G s b → own b = false →
          ∃ s', step s b = .ok s' ∧ R s' t := fun s t b hb => hforeign s t b (by simp [hb])
      cases ha : own a with
      | false =>
          rw [List.filter_cons_of_neg (by simp [ha])] at hG' hrun
          obtain ⟨s₁, hstep, hR₁⟩ := hforeign s t a (by simp) h₀ hG.1 ha
          rw [run_cons_ok hstep]
          exact ih hforeign' hR₁ (hG.2 s₁ hstep) hG' hrun
      | true =>
          rw [List.filter_cons_of_pos ha] at hG' hrun
          obtain ⟨t₁, htstep, hrest⟩ := bind_eq_ok.mp hrun
          obtain ⟨s₁, hstep, hR₁⟩ := hown s t a t₁ h₀ hG.1 hG'.1 ha htstep
          rw [run_cons_ok hstep]
          exact ih hforeign' hR₁ (hG.2 s₁ hstep) (hG'.2 t₁ htstep) hrest

end SmtpProj.Lib
