import ImapToJmap.Core.Receiver

/-!
# The first loop of `Session::ingest`

IMAP and ManageSieve ingest a read in the same way.  The first loop parses one request after the
other and asks `is_allowed` for each, with the state as it was before the read; the requests that
are admitted are collected for the second loop, which calls their handlers.  A parse error ends the
first loop, and with it the rest of the read is abandoned.

`collect` is the loop with `Receiver::parse` unrolled into it; `collect_eq` folds the latter back.
-/

namespace ImapToJmap

variable {T ρ : Type}

/-- What the first loop writes: that a request is refused, or that there is none. -/
inductive Refusal (T ρ : Type) where
  | refused (request : Request T) (response : ρ)
  | unparsed (response : StatusResponse)

/-- What the first loop leaves behind. -/
structure Admitted (T ρ : Type) where
  requests : List (Request T)
  refusals : List (Refusal T ρ)
  receiver : Receiver T
  needsLiteral : Option ℕ

/-- How a handler leaves `ingest`: it goes on, the connection is dropped, it is handed over to TLS,
or its task panics. -/
inductive Flow where
  | next
  | disconnect
  | upgrade
  | panic
deriving DecidableEq

namespace Receiver

variable [CommandParser T]

/-- The first loop of `Session::ingest`. -/
def collect (isAllowed : Request T → Except ρ (Request T)) (r : Receiver T) :
    Bytes → Admitted T ρ
  | [] => ⟨[], [], r, none⟩
  | ch :: bytes =>
      match r.step ch with
      | .ok r => r.collect isAllowed bytes
      | .error (r, .ok request) =>
          let admitted := r.collect isAllowed bytes
          match isAllowed request with
          | .ok request => { admitted with requests := request :: admitted.requests }
          | .error response =>
              { admitted with refusals := .refused request response :: admitted.refusals }
      | .error (r, .error .needsMoreData) => ⟨[], [], r, none⟩
      | .error (r, .error (.needsLiteral size)) => ⟨[], [], r, some size⟩
      | .error (r, .error (.error response)) => ⟨[], [.unparsed response], r, none⟩

variable (isAllowed : Request T → Except ρ (Request T))

/-- The loop over `Receiver::parse`. -/
theorem collect_eq (r : Receiver T) (bytes : Bytes) :
    r.collect isAllowed bytes =
      match r.parse bytes with
      | (.ok request, r, bytes) =>
          let admitted := r.collect isAllowed bytes
          match isAllowed request with
          | .ok request => { admitted with requests := request :: admitted.requests }
          | .error response =>
              { admitted with refusals := .refused request response :: admitted.refusals }
      | (.error .needsMoreData, r, _) => ⟨[], [], r, none⟩
      | (.error (.needsLiteral size), r, _) => ⟨[], [], r, some size⟩
      | (.error (.error response), r, _) => ⟨[], [.unparsed response], r, none⟩ := by
  induction bytes generalizing r with
  | nil => rfl
  | cons ch bytes ih =>
      rw [collect, parse]
      rcases r.step ch with ⟨r, (_ | _ | _) | request⟩ | r
      · rfl
      · rfl
      · rfl
      · rfl
      · exact ih r

/-- **What is collected is allowed.** -/
theorem allowed_of_mem_collect {r : Receiver T} {bytes : Bytes} {request : Request T}
    (h : request ∈ (r.collect isAllowed bytes).requests) :
    ∃ request', isAllowed request' = .ok request := by
  induction bytes generalizing r with
  | nil => simp [collect] at h
  | cons ch bytes ih =>
      rw [collect] at h
      generalize r.step ch = turn at h
      rcases turn with ⟨r, (_ | _ | _) | parsed⟩ | r
      · simp at h
      · simp at h
      · simp at h
      · cases hallowed : isAllowed parsed with
        | ok request' =>
            simp only [hallowed, List.mem_cons] at h
            rcases h with rfl | h
            · exact ⟨parsed, hallowed⟩
            · exact ih h
        | error response =>
            simp only [hallowed] at h
            exact ih h
      · exact ih h

end Receiver

end ImapToJmap
