import Mathlib.Logic.Basic

/-!
# Code that unwraps

Code fails in two ways: with an error, which its caller handles, and by a panic, which nobody does.
`unwrap` panics when there is nothing in the option.  A computation is *sound* if it does not panic,
and a sequence of steps is sound if each is, after results that the steps before it can have
(`sound_bind`).
-/

namespace ImapToJmap

/-- How code fails. -/
inductive Failure (ε : Type) where
  | error (e : ε)
  | /-- Something absent was unwrapped. -/
    panics
deriving DecidableEq

/-- The result of code that unwraps. -/
abbrev Fallible (ε α : Type) := Except (Failure ε) α

namespace Fallible

variable {ε ε' α β : Type}

/-- `Option::unwrap` -/
def unwrap : Option α → Fallible ε α
  | some a => .ok a
  | none => .error .panics

/-- `Option::ok_or`, and `?` -/
def okOr (e : ε) : Option α → Fallible ε α
  | some a => .ok a
  | none => .error (.error e)

/-- Code that does not unwrap, and `?` -/
def lift (f : ε' → ε) : Except ε' α → Fallible ε α
  | .ok a => .ok a
  | .error e => .error (.error (f e))

/-- Other errors, and `?` -/
def convert (f : ε' → ε) : Fallible ε' α → Fallible ε α
  | .ok a => .ok a
  | .error (.error e) => .error (.error (f e))
  | .error .panics => .error .panics

/-- Nothing absent is unwrapped. -/
def Sound (x : Fallible ε α) : Prop := x ≠ .error .panics

theorem sound_ok (a : α) : Sound (.ok a : Fallible ε α) := nofun

theorem sound_error (e : ε) : Sound (.error (.error e) : Fallible ε α) := nofun

theorem not_sound_panics : ¬ Sound (.error .panics : Fallible ε α) := fun h ↦ h rfl

theorem sound_okOr (e : ε) (a : Option α) : Sound (okOr e a) := by
  cases a with
  | none => exact sound_error e
  | some a => exact sound_ok a

theorem sound_lift (f : ε' → ε) (x : Except ε' α) : Sound (lift f x) := by
  cases x with
  | error e => exact sound_error _
  | ok a => exact sound_ok a

theorem sound_unwrap_iff {a : Option α} : Sound (unwrap a : Fallible ε α) ↔ a.isSome = true := by
  cases a with
  | none => exact ⟨fun h ↦ absurd rfl h, nofun⟩
  | some a => exact ⟨fun _ ↦ rfl, fun _ ↦ sound_ok a⟩

/-- **One step after the other.** -/
theorem sound_bind {x : Fallible ε α} {next : α → Fallible ε β} (hx : Sound x)
    (hnext : ∀ a, x = .ok a → Sound (next a)) : Sound (x >>= next) := by
  cases x with
  | error e => exact fun h ↦ hx (congrArg Except.error (Except.error.inj h))
  | ok a => exact hnext a rfl

/-- A first step that is sound leaves the second. -/
theorem sound_bind_iff {x : Fallible ε α} {next : α → Fallible ε β} (hx : Sound x) :
    Sound (x >>= next) ↔ ∀ a, x = .ok a → Sound (next a) := by
  constructor
  · rintro h a rfl
    exact h
  · exact sound_bind hx

theorem sound_convert_iff {f : ε' → ε} {x : Fallible ε' α} : Sound (convert f x) ↔ Sound x := by
  cases x with
  | error e =>
      cases e with
      | error e => exact iff_of_true (sound_error _) (sound_error e)
      | panics => exact iff_of_false not_sound_panics not_sound_panics
  | ok a => exact iff_of_true (sound_ok a) (sound_ok a)

/-- **One step for each element.** -/
theorem sound_mapM {f : α → Fallible ε β} {l : List α} (h : ∀ a ∈ l, Sound (f a)) :
    Sound (l.mapM f) := by
  induction l with
  | nil => exact sound_ok []
  | cons a l ih =>
      rw [List.mapM_cons]
      refine sound_bind (h a List.mem_cons_self) fun b _ ↦ ?_
      exact sound_bind (ih fun a ha ↦ h a (List.mem_cons_of_mem _ ha)) fun _ _ ↦ sound_ok _

theorem unwrap_eq_ok_iff {a : Option α} {b : α} :
    (unwrap a : Fallible ε α) = .ok b ↔ a = some b := by
  cases a with
  | none => exact ⟨nofun, nofun⟩
  | some a =>
      constructor
      · rintro ⟨⟩
        rfl
      · rintro ⟨⟩
        rfl

theorem okOr_eq_ok_iff {e : ε} {a : Option α} {b : α} : okOr e a = .ok b ↔ a = some b := by
  cases a with
  | none => exact ⟨nofun, nofun⟩
  | some a =>
      constructor
      · rintro ⟨⟩
        rfl
      · rintro ⟨⟩
        rfl

theorem convert_eq_ok_iff {f : ε' → ε} {x : Fallible ε' α} {a : α} :
    convert f x = .ok a ↔ x = .ok a := by
  cases x with
  | error e =>
      cases e with
      | error e => exact ⟨nofun, nofun⟩
      | panics => exact ⟨nofun, nofun⟩
  | ok b =>
      constructor
      · rintro ⟨⟩
        rfl
      · rintro ⟨⟩
        rfl

theorem lift_eq_ok_iff {f : ε' → ε} {x : Except ε' α} {a : α} : lift f x = .ok a ↔ x = .ok a := by
  cases x with
  | error e => exact ⟨nofun, nofun⟩
  | ok a =>
      constructor
      · rintro ⟨⟩
        rfl
      · rintro ⟨⟩
        rfl

theorem bind_eq_ok_iff {x : Fallible ε α} {next : α → Fallible ε β} {b : β} :
    x >>= next = .ok b ↔ ∃ a, x = .ok a ∧ next a = .ok b := by
  cases x with
  | error e => exact ⟨nofun, fun ⟨_, h, _⟩ ↦ nomatch h⟩
  | ok a =>
      constructor
      · intro h
        exact ⟨a, rfl, h⟩
      · rintro ⟨_, ⟨⟩, h⟩
        exact h

end Fallible

end ImapToJmap
