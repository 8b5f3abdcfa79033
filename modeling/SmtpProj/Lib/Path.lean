import SmtpProj.Lib.CString

/-!
Paths, resolved by their text alone.

A path is walked component by component: an empty one and `.` stay, `..` goes
up, and any other name goes down. A walk that goes up from the root stays
there; from the start of a relative path it goes on upwards, and the number of
such steps is kept. No link is followed.

A place is known to be under another by the names that are on top of those of
the other.
-/

namespace SmtpProj.Lib

structure Place where
  absolute : Bool
  /-- How far above the start of a relative path the names begin. -/
  ups : ℕ
  /-- The names from there, the last one first. -/
  names : List CStr
  deriving DecidableEq

namespace Place

def up (p : Place) : Place :=
  match p.names with
  | _ :: rest => { p with names := rest }
  | [] => if p.absolute then p else { p with ups := p.ups + 1 }

/-- The components that are not names. -/
def isName (component : CStr) : Bool :=
  component ≠ [] ∧ component ≠ ".".toList ∧ component ≠ "..".toList

def enter (p : Place) (component : CStr) : Place :=
  if component = "..".toList then p.up
  else if isName component then { p with names := component :: p.names } else p

def walk (p : Place) (path : CStr) : Place := (path.splitOn '/').foldl enter p

/-- `p` is `n` names under `base`. -/
def Under (n : ℕ) (base p : Place) : Prop :=
  ∃ more, more.length = n ∧ p = { base with names := more ++ base.names }

variable {n : ℕ} {base p : Place} {name : CStr}

@[simp] theorem walk_append (p : Place) (front rest : CStr) :
    p.walk (front ++ '/' :: rest) = (p.walk front).walk rest := by
  simp [walk, List.splitOn_append_cons_self]

theorem walk_component (p : Place) (hname : '/' ∉ name) : p.walk name = p.enter name := by
  simp [walk, List.splitOn_eq_singleton hname]

theorem enter_name (p : Place) (hname : isName name = true) :
    p.enter name = { p with names := name :: p.names } := by
  have hne : name ≠ "..".toList := by
    rintro rfl
    exact absurd hname (by decide)
  rw [enter, if_neg hne, if_pos hname]

theorem Under.length (h : Under n base p) : p.names.length = n + base.names.length := by
  obtain ⟨more, rfl, rfl⟩ := h
  simp

theorem length_up_le (p : Place) : p.up.names.length ≤ p.names.length := by
  unfold up
  split
  next hnames => simp [hnames]
  next => split_ifs <;> rfl

/-- A name leads one further down. -/
theorem under_enter_iff (hname : isName name = true) :
    Under (n + 1) base (p.enter name) ↔ Under n base p := by
  rw [enter_name p hname]
  constructor
  · rintro ⟨more, hlen, heq⟩
    obtain ⟨top, more, rfl⟩ := List.exists_cons_of_length_eq_add_one hlen
    obtain ⟨absolute, ups, names⟩ := p
    obtain ⟨rfl, rfl, hnames⟩ := mk.inj heq
    obtain rfl : names = more ++ base.names := (List.cons.inj hnames).2
    exact ⟨more, by simpa using hlen, rfl⟩
  · rintro ⟨more, hlen, rfl⟩
    exact ⟨name :: more, by simp [hlen], rfl⟩

/-- One component leads to what is right under a place exactly if it is a
name. -/
theorem under_one_enter_iff : Under 1 base (base.enter name) ↔ isName name = true := by
  constructor
  · intro h
    have hlen := h.length
    unfold enter at hlen
    split_ifs at hlen with hup hname
    · have := length_up_le base
      omega
    · exact hname
    · omega
  · intro hname
    rw [enter_name base hname]
    exact ⟨[name], rfl, rfl⟩

end Place

def resolve (path : CStr) : Place := Place.walk ⟨path.head? = some '/', 0, []⟩ path

theorem resolve_append {front : CStr} (hfront : front ≠ []) (rest : CStr) :
    resolve (front ++ '/' :: rest) = (resolve front).walk rest := by
  rw [resolve, List.head?_append_of_ne_nil _ hfront, Place.walk_append]
  rfl

end SmtpProj.Lib
