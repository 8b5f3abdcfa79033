import Mathlib.Data.List.Basic
import Mathlib.Logic.Function.Basic

/-!
Directory trees.

A place is the list of the names on the way to it, the last one first. A tree
says what is at each place, and what is anywhere is in a directory: the root is
one, and so is the place above every entry. A tree is built from another only
by putting something into a directory where no directory is, so this holds of
every tree there is.

A path is walked from a place on, one component after the other, and every
component is looked up in a directory. Trees only grow here: directories stay,
and files are appended to. What was walked in a tree is walked in the same way
in every tree it grows into.
-/

namespace SmtpProj.Lib

variable {κ γ : Type}

inductive Node (γ : Type)
  | dir
  | file (data : List γ)
  deriving DecidableEq

structure Tree (κ γ : Type) where
  node : List κ → Option (Node γ)
  root : node [] = some .dir
  parent : ∀ {name place}, node (name :: place) ≠ none → node place = some .dir

inductive Component (κ : Type)
  | up
  | stay
  | down (name : κ)
  deriving DecidableEq

def Component.apply : Component κ → List κ → List κ
  | .up, place => place.tail
  | .stay, place => place
  | .down name, place => name :: place

namespace Tree

def isDir (t : Tree κ γ) (place : List κ) : Bool :=
  match t.node place with
  | some .dir => true
  | _ => false

@[simp] theorem isDir_iff {t : Tree κ γ} {place : List κ} :
    t.isDir place = true ↔ t.node place = some .dir := by
  unfold isDir
  split <;> simp_all

/-- Nothing is below a place that is no directory. -/
theorem none_below {t : Tree κ γ} {place : List κ} (h : t.node place ≠ some .dir) (name : κ)
    (more : List κ) : t.node (more ++ name :: place) = none := by
  induction more with
  | nil => exact not_not.mp fun hne => h (t.parent hne)
  | cons top more ih =>
      refine not_not.mp fun hne => ?_
      have hdir : t.node (more ++ name :: place) = some .dir := t.parent hne
      rw [ih] at hdir
      cases hdir

def empty : Tree κ γ where
  node
    | [] => some .dir
    | _ :: _ => none
  root := rfl
  parent := by simp

/-- Where a path leads. The last component need not be there. -/
def walk (t : Tree κ γ) : List κ → List (Component κ) → Option (List κ)
  | place, [] => some place
  | place, c :: cs => if t.isDir place = true then t.walk (c.apply place) cs else none

variable [DecidableEq κ]

/-- Something is put into a directory, where no directory is. -/
def put (t : Tree κ γ) (name : κ) (place : List κ) (x : Node γ) : Tree κ γ :=
  if h : t.isDir place = true ∧ t.isDir (name :: place) = false then
    { node := Function.update t.node (name :: place) (some x)
      root := by rw [Function.update_of_ne (by simp), t.root]
      parent := by
        intro name' place' hne
        have hplace : place' ≠ name :: place := by
          rintro rfl
          have hdir := t.parent (show t.node (name' :: name :: place) ≠ none by
            rwa [Function.update_of_ne (by simp)] at hne)
          exact absurd (isDir_iff.mpr hdir) (by simp [h.2])
        rw [Function.update_of_ne hplace]
        by_cases heq : name' :: place' = name :: place
        · rw [(List.cons.inj heq).2]
          exact isDir_iff.mp h.1
        · rw [Function.update_of_ne heq] at hne
          exact t.parent hne }
  else t

def mkdir (t : Tree κ γ) : List κ → Option (Tree κ γ)
  | [] => none
  | name :: place =>
      if t.isDir place = true ∧ (t.node (name :: place)).isNone = true then
        some (t.put name place .dir)
      else none

def append (t : Tree κ γ) (data : List γ) : List κ → Option (Tree κ γ)
  | [] => none
  | name :: place =>
      match t.node (name :: place) with
      | some .dir => none
      | some (.file old) => some (t.put name place (.file (old ++ data)))
      | none => if t.isDir place = true then some (t.put name place (.file data)) else none

variable {t t' t₁ : Tree κ γ} {name : κ} {place q : List κ} {data : List γ}

theorem node_put (hdir : t.isDir place = true) (hno : t.isDir (name :: place) = false)
    (x : Node γ) (q : List κ) :
    (t.put name place x).node q = if q = name :: place then some x else t.node q := by
  rw [put, dif_pos ⟨hdir, hno⟩]
  exact Function.update_apply ..

/-- What a new directory changes. -/
theorem mkdir_eq_some (h : t.mkdir place = some t') :
    t.node place = none ∧
      ∀ q, t'.node q = if q = place then some .dir else t.node q := by
  cases place with
  | nil => cases h
  | cons name place =>
      rw [mkdir] at h
      split_ifs at h with hput
      cases h
      have hnone : t.node (name :: place) = none := Option.isNone_iff_eq_none.mp hput.2
      refine ⟨hnone, node_put hput.1 ?_ .dir⟩
      simp [isDir, hnone]

def read (t : Tree κ γ) (place : List κ) : List γ :=
  match t.node place with
  | some (.file data) => data
  | _ => []

theorem append_eq_some (h : t.append data place = some t') :
    t.isDir place = false ∧ (∃ name rest, place = name :: rest ∧ t.isDir rest = true) ∧
      ∀ q, t'.node q = if q = place then some (.file (t.read place ++ data)) else t.node q := by
  cases place with
  | nil => cases h
  | cons name place =>
      rw [append] at h
      cases hnode : t.node (name :: place) with
      | none =>
          simp only [hnode] at h
          split_ifs at h with hdir
          cases h
          have hno : t.isDir (name :: place) = false := by simp [isDir, hnode]
          refine ⟨hno, ⟨name, place, rfl, hdir⟩, ?_⟩
          simpa [read, hnode] using node_put hdir hno (.file data)
      | some x =>
          have hne : t.node (name :: place) ≠ none := by simp [hnode]
          have hdir : t.isDir place = true := isDir_iff.mpr (t.parent hne)
          cases x with
          | dir => simp [hnode] at h
          | file old =>
              simp only [hnode] at h
              cases h
              have hno : t.isDir (name :: place) = false := by simp [isDir, hnode]
              refine ⟨hno, ⟨name, place, rfl, hdir⟩, ?_⟩
              simpa [read, hnode] using node_put hdir hno (.file (old ++ data))

/-- In a directory, everything but a directory can be appended to. -/
theorem exists_append (hdir : t.isDir place = true) (hno : t.isDir (name :: place) = false)
    (data : List γ) : ∃ t', t.append data (name :: place) = some t' := by
  rw [append]
  cases hnode : t.node (name :: place) with
  | none => exact ⟨_, if_pos hdir⟩
  | some x =>
      cases x with
      | dir => simp [isDir, hnode] at hno
      | file old => exact ⟨_, rfl⟩

/-! ### Growth -/

/-- Directories stay, and files keep what they have in front. -/
structure Grows (t t' : Tree κ γ) : Prop where
  dir : ∀ {place}, t.isDir place = true → t'.isDir place = true
  file : ∀ {place data}, t.node place = some (.file data) →
    ∃ more, t'.node place = some (.file (data ++ more))

omit [DecidableEq κ] in
theorem Grows.refl (t : Tree κ γ) : t.Grows t :=
  ⟨id, fun h => ⟨[], by rw [h, List.append_nil]⟩⟩

omit [DecidableEq κ] in
theorem Grows.trans (h : t.Grows t₁) (h' : t₁.Grows t') : t.Grows t' where
  dir hdir := h'.dir (h.dir hdir)
  file hfile := by
    obtain ⟨more, h₁⟩ := h.file hfile
    obtain ⟨more', h₂⟩ := h'.file h₁
    exact ⟨more ++ more', by rw [h₂, List.append_assoc]⟩

omit [DecidableEq κ] in
theorem Grows.ne_none (h : t.Grows t') (hne : t.node place ≠ none) : t'.node place ≠ none := by
  cases hnode : t.node place with
  | none => exact absurd hnode hne
  | some x =>
      cases x with
      | dir =>
          have hdir := isDir_iff.mp (h.dir (isDir_iff.mpr hnode))
          simp [hdir]
      | file data =>
          obtain ⟨more, hfile⟩ := h.file hnode
          simp [hfile]

theorem mkdir_grows (h : t.mkdir place = some t') : t.Grows t' := by
  obtain ⟨hnone, hnode⟩ := mkdir_eq_some h
  have hne : ∀ q, t.node q ≠ none → q ≠ place := fun q hq heq => hq (heq ▸ hnone)
  constructor
  · intro q hdir
    have hq := isDir_iff.mp hdir
    rw [isDir_iff, hnode, if_neg (hne q (by simp [hq])), hq]
  · intro q data hq
    exact ⟨[], by rw [hnode, if_neg (hne q (by simp [hq])), hq, List.append_nil]⟩

theorem append_grows (h : t.append data place = some t') : t.Grows t' := by
  obtain ⟨hno, -, hnode⟩ := append_eq_some h
  constructor
  · intro q hdir
    have hne : q ≠ place := fun heq => by simp [heq, hno] at hdir
    rw [isDir_iff, hnode, if_neg hne, isDir_iff.mp hdir]
  · intro q old hq
    by_cases heq : q = place
    · refine ⟨data, ?_⟩
      rw [hnode, if_pos heq]
      simp [read, ← heq, hq]
    · exact ⟨[], by rw [hnode, if_neg heq, hq, List.append_nil]⟩

/-! ### Paths -/

omit [DecidableEq κ]

theorem walk_append (t : Tree κ γ) (place : List κ) (cs ds : List (Component κ)) :
    t.walk place (cs ++ ds) = (t.walk place cs).bind fun place' => t.walk place' ds := by
  induction cs generalizing place with
  | nil => rfl
  | cons c cs ih =>
      rw [List.cons_append, walk, walk]
      split_ifs
      · exact ih _
      · rfl

theorem walk_down (h : t.isDir place = true) (name : κ) :
    t.walk place [.down name] = some (name :: place) := if_pos h

/-- A path leads where it led before. -/
theorem Grows.walk (h : t.Grows t') {cs : List (Component κ)} (hwalk : t.walk place cs = some q) :
    t'.walk place cs = some q := by
  induction cs generalizing place with
  | nil => exact hwalk
  | cons c cs ih =>
      rw [Tree.walk] at hwalk ⊢
      split_ifs at hwalk with hdir
      rw [if_pos (h.dir hdir)]
      exact ih hwalk

end Tree

end SmtpProj.Lib
