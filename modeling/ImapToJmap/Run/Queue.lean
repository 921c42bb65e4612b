import ImapToJmap.Run.Basic

/-!
# Actors behind a queue

An actor `handle : σ → ε → σ` reads events in the order in which they were put into its queue.
Others put events in at any moment, and the actor takes the next one at any moment.

`drained` is the actor once it has read all that waits.  When it gets its turns makes no difference
to that: taking an event leaves `drained` as it is, and putting one in is a step of `handle` there.
So what holds of `drained` in every interleaving is shown by looking at the puts alone, and what
only grows (`le_drained`) has not gone further than there.
-/

universe u v

namespace ImapToJmap.Run

/-- The events that wait, the oldest first, and the actor that reads them. -/
structure Queue (σ : Type u) (ε : Type v) where
  waiting : List ε
  actor : σ

namespace Queue

variable {σ : Type u} {ε : Type v} (handle : σ → ε → σ) (q : Queue σ ε)

/-- Put an event in. -/
def put (e : ε) : Queue σ ε := { q with waiting := q.waiting ++ [e] }

/-- The actor takes the next event, if there is one. -/
def take : Queue σ ε :=
  match q.waiting with
  | [] => q
  | e :: waiting => ⟨waiting, handle q.actor e⟩

/-- The actor once it has read all that waits. -/
def drained : σ := exec handle q.actor q.waiting

@[simp] theorem actor_put (e : ε) : (q.put e).actor = q.actor := rfl

@[simp] theorem drained_put (e : ε) : (q.put e).drained handle = handle (q.drained handle) e := by
  simp [drained, put, exec_append]

@[simp] theorem drained_take : (q.take handle).drained handle = q.drained handle := by
  obtain ⟨waiting, actor⟩ := q
  cases waiting with
  | nil => rfl
  | cons e waiting => rfl

/-- **What every event takes further** has not gone further than `drained`. -/
theorem le_drained (le : σ → σ → Prop) (hrefl : ∀ s, le s s)
    (htrans : ∀ s t u, le s t → le t u → le s u) (hle : ∀ s e, le s (handle s e)) :
    le q.actor (q.drained handle) := by
  obtain ⟨waiting, actor⟩ := q
  rw [drained]
  induction waiting generalizing actor with
  | nil => exact hrefl actor
  | cons e waiting ih => exact htrans _ _ _ (hle actor e) (ih (handle actor e))

end Queue

end ImapToJmap.Run
