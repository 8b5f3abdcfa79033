import Mathlib.Data.List.TakeWhile
import Mathlib.Data.List.Infix

/-!
Regular expressions in the backtracking reading of Perl and PCRE.

A match attempt is a list of successes in order of preference: greedy
operators list the longer choice first, lazy ones the shorter, and a sequence
tries all continuations of its first part in order. The match that the engine
reports is the head of that list at the first start position that has one.
Repetition is of single characters of a class, which is all that is needed
here and makes every definition a structural recursion.

The subject is a list over any alphabet. A zero-width assertion is a predicate
on the position and on what is left, so both anchors are instances.
-/

namespace SmtpProj.Lib

variable {α : Type}

inductive Regex (α : Type)
  | one (p : α → Bool)
  | opt (p : α → Bool)
  | star (p : α → Bool)
  | lazyPlus (p : α → Bool)
  | look (q : ℕ → List α → Bool)
  | group (n : ℕ) (r : Regex α)
  | seq (r t : Regex α)

/-- Where a match attempt stands: the position, the rest of the subject, and
the groups closed so far, the latest first. -/
structure Cursor (α : Type) where
  pos : ℕ
  rest : List α
  caps : List (ℕ × List α)
  deriving DecidableEq

def Cursor.start (i : ℕ) (s : List α) : Cursor α := ⟨i, s.drop i, []⟩

def Cursor.capture (cur : Cursor α) (n : ℕ) : Option (List α) :=
  (cur.caps.find? (·.1 == n)).map (·.2)

namespace Regex

def greedy (p : α → Bool) (caps : List (ℕ × List α)) : ℕ → List α → List (Cursor α)
  | i, [] => [⟨i, [], caps⟩]
  | i, c :: cs =>
      (if p c then greedy p caps (i + 1) cs else []) ++ [⟨i, c :: cs, caps⟩]

def reluctant (p : α → Bool) (caps : List (ℕ × List α)) : ℕ → List α → List (Cursor α)
  | i, [] => [⟨i, [], caps⟩]
  | i, c :: cs =>
      ⟨i, c :: cs, caps⟩ :: (if p c then reluctant p caps (i + 1) cs else [])

/-- The ways to match from a place in the subject, the preferred one first. -/
def results : Regex α → Cursor α → List (Cursor α)
  | one p, cur =>
      match cur.rest with
      | [] => []
      | c :: cs => if p c then [{ cur with pos := cur.pos + 1, rest := cs }] else []
  | opt p, cur =>
      match cur.rest with
      | [] => [cur]
      | c :: cs =>
          (if p c then [{ cur with pos := cur.pos + 1, rest := cs }] else []) ++ [cur]
  | star p, cur => greedy p cur.caps cur.pos cur.rest
  | lazyPlus p, cur =>
      match cur.rest with
      | [] => []
      | c :: cs => if p c then reluctant p cur.caps (cur.pos + 1) cs else []
  | look q, cur => if q cur.pos cur.rest then [cur] else []
  | group n r, cur =>
      (r.results cur).map fun cur' =>
        { cur' with caps := (n, cur.rest.take (cur'.pos - cur.pos)) :: cur'.caps }
  | seq r t, cur => (r.results cur).flatMap t.results

/-- The match the engine reports: the preferred one at the first start that has
any. -/
def exec (r : Regex α) (s : List α) : Option (Cursor α) :=
  (List.range (s.length + 1)).findSome? fun i => (r.results (Cursor.start i s)).head?

def seqs : List (Regex α) → Regex α
  | [] => look fun _ _ => true
  | [r] => r
  | r :: rs => seq r (seqs rs)

/-- The `^` anchor, without the multiline option. -/
def bol : Regex α := look fun i _ => i == 0

/-- The `$` anchor, without the multiline option: the end of the subject, or
the place before a newline that ends it. -/
def eol [DecidableEq α] (newline : α) : Regex α :=
  look fun _ rest => rest == [] || rest == [newline]

/-! ### Matching from one place -/

@[simp] theorem results_seqs_cons (r r' : Regex α) (rs : List (Regex α)) (cur : Cursor α) :
    (seqs (r :: r' :: rs)).results cur = (r.results cur).flatMap (seqs (r' :: rs)).results := rfl

@[simp] theorem results_seqs_singleton (r : Regex α) (cur : Cursor α) :
    (seqs [r]).results cur = r.results cur := rfl

@[simp] theorem results_one_nil (p : α → Bool) (i : ℕ) (caps : List (ℕ × List α)) :
    (one p).results ⟨i, [], caps⟩ = [] := rfl

@[simp] theorem results_one_cons (p : α → Bool) (i : ℕ) (c : α) (cs : List α)
    (caps : List (ℕ × List α)) :
    (one p).results ⟨i, c :: cs, caps⟩ = if p c then [⟨i + 1, cs, caps⟩] else [] := rfl

@[simp] theorem results_one_pos {p : α → Bool} {c : α} (h : p c = true) (i : ℕ) (cs : List α)
    (caps : List (ℕ × List α)) :
    (one p).results ⟨i, c :: cs, caps⟩ = [⟨i + 1, cs, caps⟩] := by
  simp [results_one_cons, h]

@[simp] theorem results_one_neg {p : α → Bool} {c : α} (h : p c = false) (i : ℕ) (cs : List α)
    (caps : List (ℕ × List α)) :
    (one p).results ⟨i, c :: cs, caps⟩ = [] := by
  simp [results_one_cons, h]

@[simp] theorem results_opt_nil (p : α → Bool) (i : ℕ) (caps : List (ℕ × List α)) :
    (opt p).results ⟨i, [], caps⟩ = [⟨i, [], caps⟩] := rfl

@[simp] theorem results_opt_cons (p : α → Bool) (i : ℕ) (c : α) (cs : List α)
    (caps : List (ℕ × List α)) :
    (opt p).results ⟨i, c :: cs, caps⟩ =
      (if p c then [⟨i + 1, cs, caps⟩] else []) ++ [⟨i, c :: cs, caps⟩] := rfl

@[simp] theorem results_look (q : ℕ → List α → Bool) (cur : Cursor α) :
    (look q).results cur = if q cur.pos cur.rest then [cur] else [] := rfl

/-- A greedy repetition can always stop, so it never fails. -/
@[simp] theorem greedy_ne_nil (p : α → Bool) (caps : List (ℕ × List α)) (i : ℕ) (s : List α) :
    greedy p caps i s ≠ [] := by
  cases s <;> simp [greedy]

theorem results_seqs_one_ne_nil {p : α → Bool} {r : Regex α} {rs : List (Regex α)} {i : ℕ}
    {s : List α} {caps : List (ℕ × List α)} :
    (seqs (one p :: r :: rs)).results ⟨i, s, caps⟩ ≠ [] ↔
      ∃ c cs, s = c :: cs ∧ p c = true ∧ (seqs (r :: rs)).results ⟨i + 1, cs, caps⟩ ≠ [] := by
  cases s with
  | nil => simp
  | cons c cs => by_cases hc : p c = true <;> simp [hc]

theorem results_seqs_opt_ne_nil {p : α → Bool} {r : Regex α} {rs : List (Regex α)} {i : ℕ}
    {s : List α} {caps : List (ℕ × List α)} :
    (seqs (opt p :: r :: rs)).results ⟨i, s, caps⟩ ≠ [] ↔
      (∃ c cs, s = c :: cs ∧ p c = true ∧ (seqs (r :: rs)).results ⟨i + 1, cs, caps⟩ ≠ []) ∨
        (seqs (r :: rs)).results ⟨i, s, caps⟩ ≠ [] := by
  cases s with
  | nil => simp
  | cons c cs =>
      simp only [results_seqs_cons, results_opt_cons]
      by_cases hc : p c = true
      · simp [hc]
        tauto
      · simp [hc]

theorem results_seqs_one_pos {p : α → Bool} {r : Regex α} {rs : List (Regex α)} {i : ℕ} {c : α}
    {cs : List α} {caps : List (ℕ × List α)} (hc : p c = true) :
    (seqs (one p :: r :: rs)).results ⟨i, c :: cs, caps⟩ =
      (seqs (r :: rs)).results ⟨i + 1, cs, caps⟩ := by
  simp [hc]

theorem results_seqs_opt_neg {p : α → Bool} {r : Regex α} {rs : List (Regex α)} {i : ℕ}
    {c : α} {cs : List α} {caps : List (ℕ × List α)} (hc : p c = false) :
    (seqs (opt p :: r :: rs)).results ⟨i, c :: cs, caps⟩ =
      (seqs (r :: rs)).results ⟨i, c :: cs, caps⟩ := by
  simp [results_opt_cons, hc]

/-! ### What a match has consumed -/

theorem mem_results_seqs_cons {r : Regex α} {rs : List (Regex α)} {cur cur' : Cursor α} :
    cur' ∈ (seqs (r :: rs)).results cur ↔
      ∃ mid ∈ r.results cur, cur' ∈ (seqs rs).results mid := by
  cases rs with
  | nil => simp [seqs]
  | cons r' rs => simp

theorem mem_results_seqs_append {rs ts : List (Regex α)} {cur cur' : Cursor α} :
    cur' ∈ (seqs (rs ++ ts)).results cur ↔
      ∃ mid ∈ (seqs rs).results cur, cur' ∈ (seqs ts).results mid := by
  induction rs generalizing cur with
  | nil => simp [seqs]
  | cons r rs ih =>
      rw [List.cons_append]
      simp only [mem_results_seqs_cons, ih]
      constructor
      · rintro ⟨cur₁, h₁, cur₂, h₂, h⟩
        exact ⟨cur₂, ⟨cur₁, h₁, h₂⟩, h⟩
      · rintro ⟨cur₂, ⟨cur₁, h₁, h₂⟩, h⟩
        exact ⟨cur₁, h₁, cur₂, h₂, h⟩

theorem mem_reluctant {p : α → Bool} {caps : List (ℕ × List α)} {i : ℕ} {s : List α}
    {cur : Cursor α} : cur ∈ reluctant p caps i s ↔
      ∃ used rest, s = used ++ rest ∧ (∀ c ∈ used, p c = true) ∧
        cur = ⟨i + used.length, rest, caps⟩ := by
  induction s generalizing i with
  | nil => simp [reluctant]
  | cons c cs ih =>
      rw [reluctant, List.mem_cons]
      constructor
      · rintro (rfl | h)
        · exact ⟨[], c :: cs, rfl, by simp, rfl⟩
        · split at h
          next hc =>
            obtain ⟨used, rest, rfl, hused, rfl⟩ := ih.mp h
            refine ⟨c :: used, rest, rfl, List.forall_mem_cons.mpr ⟨hc, hused⟩, ?_⟩
            simp [Nat.add_comm 1, Nat.add_assoc]
          next => cases h
      · rintro ⟨_ | ⟨d, used⟩, rest, hs, hused, rfl⟩
        · exact .inl (by rw [hs]; rfl)
        · obtain ⟨rfl, rfl⟩ := List.cons.inj hs
          obtain ⟨hc, hused⟩ := List.forall_mem_cons.mp hused
          rw [if_pos hc, ih]
          exact .inr ⟨used, rest, rfl, hused, by simp [Nat.add_comm 1, Nat.add_assoc]⟩

@[simp] theorem mem_results_one {p : α → Bool} {cur cur' : Cursor α} : cur' ∈ (one p).results cur ↔
    ∃ c rest, cur.rest = c :: rest ∧ p c = true ∧ cur' = ⟨cur.pos + 1, rest, cur.caps⟩ := by
  rcases cur with ⟨i, _ | ⟨c, cs⟩, caps⟩
  · simp
  · rw [results_one_cons]
    split_ifs with hc <;> simp [hc]

/-- A group around a lazy repetition captures a non-empty text of the class. -/
theorem mem_results_argument {p : α → Bool} {n : ℕ} {cur cur' : Cursor α} :
    cur' ∈ (group n (lazyPlus p)).results cur ↔
      ∃ arg rest, cur.rest = arg ++ rest ∧ arg ≠ [] ∧ (∀ c ∈ arg, p c = true) ∧
        cur' = ⟨cur.pos + arg.length, rest, (n, arg) :: cur.caps⟩ := by
  rcases cur with ⟨i, _ | ⟨c, cs⟩, caps⟩
  · simp [results]
  · simp only [results, List.mem_map]
    constructor
    · rintro ⟨mid, hmid, rfl⟩
      split at hmid
      next hc =>
        obtain ⟨used, rest, rfl, hused, rfl⟩ := mem_reluctant.mp hmid
        refine ⟨c :: used, rest, rfl, by simp, List.forall_mem_cons.mpr ⟨hc, hused⟩, ?_⟩
        simp [Nat.add_comm 1, Nat.add_assoc]
      next => cases hmid
    · rintro ⟨_ | ⟨d, used⟩, rest, hs, harg, hused, rfl⟩
      · exact absurd rfl harg
      obtain ⟨rfl, rfl⟩ := List.cons.inj hs
      obtain ⟨hc, hused⟩ := List.forall_mem_cons.mp hused
      rw [if_pos hc]
      refine ⟨_, mem_reluctant.mpr ⟨used, rest, rfl, hused, rfl⟩, ?_⟩
      simp [Nat.add_comm 1, Nat.add_assoc]

def plain : Regex α → Bool
  | one _ | opt _ | star _ | lazyPlus _ | look _ => true
  | group _ _ => false
  | seq r t => r.plain && t.plain

theorem mem_greedy {p : α → Bool} {caps : List (ℕ × List α)} {i : ℕ} {s : List α}
    {cur : Cursor α} (h : cur ∈ greedy p caps i s) :
    cur.caps = caps ∧ cur.rest <:+ s := by
  induction s generalizing i with
  | nil => simp_all [greedy]
  | cons c cs ih =>
      rcases List.mem_append.mp h with h | h
      · split at h
        · obtain ⟨hcaps, hrest⟩ := ih h
          exact ⟨hcaps, hrest.trans (List.suffix_cons c cs)⟩
        · cases h
      · rw [List.mem_singleton.mp h]
        exact ⟨rfl, List.suffix_rfl⟩

/-- An expression without groups keeps the captures, and takes text off the
front. -/
theorem plain_results {r : Regex α} {cur cur' : Cursor α} (hr : r.plain = true)
    (h : cur' ∈ r.results cur) : cur'.caps = cur.caps ∧ cur'.rest <:+ cur.rest := by
  induction r generalizing cur cur' with
  | one p =>
      simp only [results] at h
      split at h
      next => cases h
      next c cs hrest =>
        split at h
        · rw [List.mem_singleton.mp h, hrest]
          exact ⟨rfl, List.suffix_cons c cs⟩
        · cases h
  | opt p =>
      simp only [results] at h
      split at h
      next =>
        rw [List.mem_singleton.mp h]
        exact ⟨rfl, List.suffix_rfl⟩
      next c cs hrest =>
        rcases List.mem_append.mp h with h | h
        · split at h
          · rw [List.mem_singleton.mp h, hrest]
            exact ⟨rfl, List.suffix_cons c cs⟩
          · cases h
        · rw [List.mem_singleton.mp h]
          exact ⟨rfl, List.suffix_rfl⟩
  | star p => exact mem_greedy h
  | lazyPlus p =>
      simp only [results] at h
      split at h
      next => cases h
      next c cs hrest =>
        split at h
        · obtain ⟨used, rest, rfl, -, rfl⟩ := mem_reluctant.mp h
          rw [hrest]
          exact ⟨rfl, (List.suffix_append used rest).trans (List.suffix_cons c _)⟩
        · cases h
  | look q =>
      rw [results_look] at h
      split at h
      · rw [List.mem_singleton.mp h]
        exact ⟨rfl, List.suffix_rfl⟩
      · cases h
  | group n r => cases hr
  | seq r t ihr iht =>
      obtain ⟨hr, ht⟩ := (Bool.and_eq_true _ _).mp hr
      obtain ⟨mid, hmid, h⟩ := List.mem_flatMap.mp h
      obtain ⟨hcaps₁, hrest₁⟩ := ihr hr hmid
      obtain ⟨hcaps₂, hrest₂⟩ := iht ht h
      exact ⟨hcaps₂.trans hcaps₁, hrest₂.trans hrest₁⟩

theorem plain_seqs {rs : List (Regex α)} (h : ∀ r ∈ rs, r.plain = true) :
    (seqs rs).plain = true := by
  induction rs with
  | nil => rfl
  | cons r rs ih =>
      obtain ⟨hr, hrs⟩ := List.forall_mem_cons.mp h
      cases rs with
      | nil => exact hr
      | cons r' rs => exact (Bool.and_eq_true _ _).mpr ⟨hr, ih hrs⟩

/-- What the only group of a sequence captures, when it stands around a lazy
repetition. -/
theorem argument_of_mem {p : α → Bool} {n i : ℕ} {s : List α} {rs ts : List (Regex α)}
    {cur : Cursor α} (hrs : ∀ r ∈ rs, r.plain = true) (hts : ∀ r ∈ ts, r.plain = true)
    (h : cur ∈ (seqs (rs ++ group n (lazyPlus p) :: ts)).results ⟨i, s, []⟩) :
    ∃ arg, cur.caps = [(n, arg)] ∧ arg ≠ [] ∧ (∀ c ∈ arg, p c = true) ∧ arg <:+: s := by
  obtain ⟨⟨j, rest, caps⟩, hmid, h⟩ := mem_results_seqs_append.mp h
  obtain ⟨hcaps, hrest⟩ := plain_results (plain_seqs hrs) hmid
  obtain ⟨mid, hmid, h⟩ := mem_results_seqs_cons.mp h
  obtain ⟨arg, tail, hargs, harg, hp, rfl⟩ := mem_results_argument.mp hmid
  obtain ⟨hcaps', -⟩ := plain_results (plain_seqs hts) h
  obtain rfl : rest = arg ++ tail := hargs
  refine ⟨arg, ?_, harg, hp, (List.prefix_append arg tail).isInfix.trans hrest.isInfix⟩
  rw [hcaps']
  exact congrArg _ hcaps

theorem results_seqs_argument_ne_nil {p : α → Bool} {r : Regex α} {rs : List (Regex α)} {n i : ℕ}
    {s : List α} {caps : List (ℕ × List α)} :
    (seqs (group n (lazyPlus p) :: r :: rs)).results ⟨i, s, caps⟩ ≠ [] ↔
      ∃ arg rest, s = arg ++ rest ∧ arg ≠ [] ∧ (∀ c ∈ arg, p c = true) ∧
        (seqs (r :: rs)).results ⟨i + arg.length, rest, (n, arg) :: caps⟩ ≠ [] := by
  simp only [Ne, List.eq_nil_iff_forall_not_mem, not_forall, not_not, mem_results_seqs_cons,
    mem_results_argument]
  constructor
  · rintro ⟨cur, _, ⟨arg, rest, hs, harg, hp, rfl⟩, h⟩
    exact ⟨arg, rest, hs, harg, hp, cur, h⟩
  · rintro ⟨arg, rest, hs, harg, hp, cur, h⟩
    exact ⟨cur, _, ⟨arg, rest, hs, harg, hp, rfl⟩, h⟩

/-! ### The preferred match -/

/-- An option takes its character if the match can go on from there. -/
theorem head_results_seqs_opt {p : α → Bool} {r : Regex α} {rs : List (Regex α)} {i : ℕ} {c : α}
    {cs : List α} {caps : List (ℕ × List α)} {cur : Cursor α} (hc : p c = true)
    (h : ((seqs (r :: rs)).results ⟨i + 1, cs, caps⟩).head? = some cur) :
    ((seqs (opt p :: r :: rs)).results ⟨i, c :: cs, caps⟩).head? = some cur := by
  simp [results_opt_cons, hc, h]

/-- A lazy repetition stops where the match can first go on. -/
theorem head_flatMap_reluctant {p : α → Bool} {caps : List (ℕ × List α)} {i : ℕ}
    {used rest : List α} {f : Cursor α → List (Cursor α)} {cur : Cursor α}
    (hused : ∀ c ∈ used, p c = true)
    (hfirst : ∀ a b, used = a ++ b → b ≠ [] → f ⟨i + a.length, b ++ rest, caps⟩ = [])
    (hlast : (f ⟨i + used.length, rest, caps⟩).head? = some cur) :
    ((reluctant p caps i (used ++ rest)).flatMap f).head? = some cur := by
  induction used generalizing i with
  | nil =>
      rw [List.length_nil, Nat.add_zero] at hlast
      cases rest <;> simp [reluctant, hlast]
  | cons c used ih =>
      obtain ⟨hc, hused⟩ := List.forall_mem_cons.mp hused
      have hskip : f ⟨i, c :: (used ++ rest), caps⟩ = [] := hfirst [] (c :: used) rfl (by simp)
      have hlen : i + (c :: used).length = i + 1 + used.length := by
        rw [List.length_cons]
        omega
      rw [List.cons_append, reluctant, if_pos hc, List.flatMap_cons, hskip, List.nil_append]
      refine ih hused (fun a b hab hb => ?_) (hlen ▸ hlast)
      have h := hfirst (c :: a) b (by rw [hab]; rfl) hb
      rwa [List.length_cons, Nat.add_comm a.length 1, ← Nat.add_assoc] at h

theorem head_results_seqs_argument {p : α → Bool} {r : Regex α} {rs : List (Regex α)} {n i : ℕ}
    {arg rest : List α} {caps : List (ℕ × List α)} {cur : Cursor α} (harg : arg ≠ [])
    (hp : ∀ c ∈ arg, p c = true)
    (hfirst : ∀ a b, arg = a ++ b → a ≠ [] → b ≠ [] →
      (seqs (r :: rs)).results ⟨i + a.length, b ++ rest, (n, a) :: caps⟩ = [])
    (hlast : ((seqs (r :: rs)).results ⟨i + arg.length, rest, (n, arg) :: caps⟩).head? =
      some cur) :
    ((seqs (group n (lazyPlus p) :: r :: rs)).results ⟨i, arg ++ rest, caps⟩).head? =
      some cur := by
  obtain ⟨c, used, rfl⟩ := List.exists_cons_of_ne_nil harg
  obtain ⟨hc, hused⟩ := List.forall_mem_cons.mp hp
  let close : Cursor α → Cursor α := fun cur =>
    { cur with caps := (n, ((c :: used) ++ rest).take (cur.pos - i)) :: cur.caps }
  have hclose : ∀ a b, c :: used = (c :: a) ++ b →
      close ⟨i + 1 + a.length, b ++ rest, caps⟩ =
        ⟨i + (c :: a).length, b ++ rest, (n, c :: a) :: caps⟩ := by
    intro a b hab
    have hlen : i + 1 + a.length - i = (c :: a).length := by
      rw [List.length_cons]
      omega
    simp only [close, hlen, hab, List.append_assoc, List.take_left]
    rw [List.length_cons, Nat.add_comm a.length 1, ← Nat.add_assoc]
  have hresults : (seqs (group n (lazyPlus p) :: r :: rs)).results ⟨i, (c :: used) ++ rest, caps⟩ =
      (reluctant p caps (i + 1) (used ++ rest)).flatMap fun cur =>
        (seqs (r :: rs)).results (close cur) := by
    simp only [results_seqs_cons, results, List.cons_append, hc, if_true, List.flatMap_map]
    rfl
  have hend := hclose used [] (by simp)
  simp only [List.nil_append] at hend
  rw [hresults, head_flatMap_reluctant hused (fun a b hab hb => ?_) (by rwa [hend])]
  rw [hclose a b (by rw [hab]; rfl)]
  exact hfirst (c :: a) b (by rw [hab]; rfl) (List.cons_ne_nil c a) hb

/-! ### A newline at the end -/

/-- What matches in front of a last newline also matches without it. -/
def DropsEnd (newline : α) (r : Regex α) : Prop :=
  ∀ i s caps, newline ∉ s → r.results ⟨i, s ++ [newline], caps⟩ ≠ [] → r.results ⟨i, s, caps⟩ ≠ []

variable {newline : α} {p : α → Bool} {r : Regex α} {rs : List (Regex α)}

theorem dropsEnd_one (h : DropsEnd newline (seqs (r :: rs)))
    (hnil : p newline = true → ∀ i caps, (seqs (r :: rs)).results ⟨i, [], caps⟩ = []) :
    DropsEnd newline (seqs (one p :: r :: rs)) := by
  intro i s caps hs hmatch
  obtain ⟨c, cs, heq, hc, hrest⟩ := results_seqs_one_ne_nil.mp hmatch
  cases s with
  | nil =>
      obtain ⟨rfl, rfl⟩ := List.cons.inj heq
      exact absurd (hnil hc _ _) hrest
  | cons d s =>
      obtain ⟨rfl, rfl⟩ := List.cons.inj heq
      have hs : newline ∉ s := fun hmem => hs (List.mem_cons_of_mem _ hmem)
      exact results_seqs_one_ne_nil.mpr ⟨d, s, rfl, hc, h _ _ _ hs hrest⟩

theorem dropsEnd_opt (h : DropsEnd newline (seqs (r :: rs)))
    (hnil : p newline = true → ∀ i caps, (seqs (r :: rs)).results ⟨i, [], caps⟩ = []) :
    DropsEnd newline (seqs (opt p :: r :: rs)) := by
  intro i s caps hs hmatch
  rcases results_seqs_opt_ne_nil.mp hmatch with ⟨c, cs, heq, hc, hrest⟩ | hrest
  · have hone := dropsEnd_one (p := p) h hnil i s caps hs
      (results_seqs_one_ne_nil.mpr ⟨c, cs, heq, hc, hrest⟩)
    exact results_seqs_opt_ne_nil.mpr (.inl (results_seqs_one_ne_nil.mp hone))
  · exact results_seqs_opt_ne_nil.mpr (.inr (h _ _ _ hs hrest))

theorem dropsEnd_argument {n : ℕ} (h : DropsEnd newline (seqs (r :: rs)))
    (hp : p newline = false) : DropsEnd newline (seqs (group n (lazyPlus p) :: r :: rs)) := by
  intro i s caps hs hmatch
  obtain ⟨arg, rest, heq, harg, hpos, hrest⟩ := results_seqs_argument_ne_nil.mp hmatch
  rcases List.eq_nil_or_concat rest with rfl | ⟨tail, last, rfl⟩
  · -- the argument would hold the newline
    have hmem : newline ∈ arg := by
      rw [List.append_nil] at heq
      simp [← heq]
    rw [hpos newline hmem] at hp
    cases hp
  · obtain ⟨rfl, hlast⟩ : s = arg ++ tail ∧ [newline] = [last] :=
      List.append_inj' (by simpa using heq) rfl
    obtain rfl : newline = last := by simpa using hlast
    have htail : newline ∉ tail := fun hmem => hs (List.mem_append_right _ hmem)
    exact results_seqs_argument_ne_nil.mpr
      ⟨arg, tail, rfl, harg, hpos, h _ _ _ htail (by simpa using hrest)⟩

/-! ### Searching the subject -/

theorem exec_eq_of_head {r : Regex α} {s : List α} (cur : Cursor α)
    (h : (r.results (Cursor.start 0 s)).head? = some cur) : r.exec s = some cur := by
  simp [exec, List.range_succ_eq_map, h]

/-- An anchored expression is tried at the start of the subject only. -/
theorem exec_bol (r : Regex α) (rs : List (Regex α)) (s : List α) :
    (seqs (bol :: r :: rs)).exec s = ((seqs (r :: rs)).results ⟨0, s, []⟩).head? := by
  have hfail : ∀ i ∈ (List.range s.length).map Nat.succ,
      ((seqs (bol :: r :: rs)).results (Cursor.start i s)).head? = none := by
    intro i hi
    obtain ⟨j, -, rfl⟩ := List.mem_map.mp hi
    simp [bol, Cursor.start]
  rw [exec, List.range_succ_eq_map, List.findSome?_cons,
    List.findSome?_eq_none_iff.mpr hfail]
  simp only [results_seqs_cons, bol, results_look, Cursor.start, beq_self_eq_true, if_true,
    List.drop_zero, List.flatMap_cons, List.flatMap_nil, List.append_nil]
  cases (seqs (r :: rs)).results ⟨0, s, []⟩ <;> rfl

theorem exec_bol_eq_none_iff {r : Regex α} {rs : List (Regex α)} {s : List α} :
    (seqs (bol :: r :: rs)).exec s = none ↔ (seqs (r :: rs)).results ⟨0, s, []⟩ = [] := by
  rw [exec_bol, List.head?_eq_none_iff]

end Regex

end SmtpProj.Lib
