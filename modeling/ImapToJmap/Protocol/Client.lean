import ImapToJmap.Data.List

/-!
# What a client knows of the selected mailbox

The untagged responses that number messages, as `protocol/expunge.rs`, `protocol/select.rs` and
`protocol/fetch.rs` write them, and a client that keeps a list of the messages of the mailbox by
them.  A position of that list holds the UID of the message if the client has learned it.

`Agrees` is the relation between the client's list and the server's: the same length, and every UID
the client knows is the one the server has at that position.  The results below say how the
responses preserve it: the EXPUNGE responses with their numbers already shifted (`agrees_expunge`),
VANISHED with UIDs the client may or may not know (`agrees_vanished`), and EXISTS
(`agrees_exist`).
-/

namespace ImapToJmap

/-- An untagged response about the messages of the selected mailbox. -/
inductive Untagged where
  | /-- `* n EXPUNGE` -/
    expunge (seqnum : ℕ)
  | /-- `* VANISHED uids` -/
    vanished (uids : List ℕ)
  | /-- `* n EXISTS` -/
    exist (totalMessages : ℕ)
  | /-- `* n FETCH (UID uid)` -/
    fetch (seqnum uid : ℕ)
deriving DecidableEq

/-- `expunge::Response::serialize_to`: each EXPUNGE counts the ones before it. -/
def expungeResponse (isQresync : Bool) (ids : List ℕ) : List Untagged :=
  if !isQresync then ids.zipIdx.map fun (id, numDeletions) ↦ .expunge (id - numDeletions)
  else [.vanished ids]

/-- The messages of the mailbox in the order of their sequence numbers, with the UIDs the client
has learned. -/
abbrev Client := List (Option ℕ)

namespace Client

/-- The client removes a UID.  If it has not learned which message that is, it is one of the unknown
ones between the known UIDs below and above. -/
def vanish : Client → ℕ → Client
  | [], _ => []
  | some v :: client, uid => if v = uid then client else some v :: vanish client uid
  | none :: client, uid =>
      if client.any (·.any (· ≤ uid)) then none :: vanish client uid else client

/-- What the client does with a response. -/
def receive (client : Client) : Untagged → Client
  | .expunge 0 => client
  | .expunge (pos + 1) => client.eraseIdx pos
  | .vanished uids => uids.foldl vanish client
  | .exist totalMessages => client ++ List.replicate (totalMessages - client.length) none
  | .fetch 0 _ => client
  | .fetch (pos + 1) uid => client.set pos (some uid)

def receiveAll (client : Client) (responses : List Untagged) : Client :=
  responses.foldl receive client

theorem receiveAll_append (client : Client) (as bs : List Untagged) :
    client.receiveAll (as ++ bs) = (client.receiveAll as).receiveAll bs := List.foldl_append

/-- The client's list is the server's, as far as it is known. -/
def Agrees (client : Client) (uids : List ℕ) : Prop :=
  List.Forall₂ (fun known uid ↦ ∀ u ∈ known, u = uid) client uids

theorem Agrees.length_eq {client : Client} {uids : List ℕ} (h : client.Agrees uids) :
    client.length = uids.length := List.Forall₂.length_eq h

theorem Agrees.getElem?_eq_some {client : Client} {uids : List ℕ} (h : client.Agrees uids)
    {pos uid : ℕ} (hget : client[pos]? = some (some uid)) : uids[pos]? = some uid := by
  obtain ⟨hlt, hget'⟩ := List.getElem?_eq_some_iff.mp hget
  have hlt' : pos < uids.length := h.length_eq ▸ hlt
  have huid := (List.forall₂_iff_get.mp h).2 pos hlt hlt' uid (by simp [hget'])
  rw [List.getElem?_eq_getElem hlt', huid]
  rfl

/-- A client that knows nothing but the number of messages. -/
theorem agrees_replicate (uids : List ℕ) :
    Agrees (List.replicate uids.length none) uids := by
  induction uids with
  | nil => exact .nil
  | cons u uids ih => exact .cons (by simp) ih

/-! ## EXPUNGE -/

/-- Reading the EXPUNGE responses for a part of the list: `pre` is what is left of the part before
it, `numDeletions` the number of messages already gone from there. -/
theorem receiveAll_expunge {α : Type} {R : Option ℕ → α → Prop} (keep : α → Bool) {client : Client}
    {l : List α} (h : List.Forall₂ R client l) (pre : Client) (numDeletions : ℕ) :
    ∃ client', List.Forall₂ R client' (l.filter keep) ∧
      receiveAll (pre ++ client)
        ((((((l.zipIdx (pre.length + numDeletions)).filter fun x ↦ !keep x.1).map
          fun x ↦ x.2 + 1).zipIdx numDeletions).map
            fun x ↦ Untagged.expunge (x.1 - x.2))) = pre ++ client' := by
  induction h generalizing pre numDeletions with
  | nil => exact ⟨[], .nil, rfl⟩
  | @cons known x client l hx h ih =>
      by_cases hkeep : keep x = true
      · obtain ⟨client', hR, hrec⟩ := ih (pre ++ [known]) numDeletions
        refine ⟨known :: client', by simpa [hkeep] using ⟨hx, hR⟩, ?_⟩
        rw [List.length_append, List.length_singleton, Nat.add_right_comm] at hrec
        simpa [List.zipIdx_cons, hkeep] using hrec
      · -- the number of the first message of the rest, as the client counts
        obtain ⟨client', hR, hrec⟩ := ih pre (numDeletions + 1)
        refine ⟨client', by simpa [hkeep] using hR, ?_⟩
        have hnum : pre.length + (numDeletions + 1) - numDeletions = pre.length + 1 := by omega
        have herase : (pre ++ known :: client).eraseIdx pre.length = pre ++ client := by
          rw [List.eraseIdx_append_of_length_le le_rfl]
          simp
        simpa [List.zipIdx_cons, hkeep, receiveAll, receive, hnum, herase, Nat.add_assoc]
          using hrec

/-- The EXPUNGE responses for the messages that are not kept. -/
theorem agrees_expunge {α : Type} (uid : α → ℕ) {client : Client} {l : List α}
    (h : client.Agrees (l.map uid)) (keep : α → Bool) :
    (client.receiveAll (expungeResponse false
      ((l.zipIdx.filter fun x ↦ !keep x.1).map fun x ↦ x.2 + 1))).Agrees
        ((l.filter keep).map uid) := by
  obtain ⟨client', hR, hrec⟩ :=
    receiveAll_expunge keep (List.forall₂_map_right_iff.mp h) [] 0
  simp only [List.nil_append, List.length_nil, Nat.add_zero] at hrec
  rw [Agrees, List.forall₂_map_right_iff]
  exact hrec ▸ hR

/-! ## VANISHED -/

/-- Where nothing at or below a UID is known, any message can be the one that goes. -/
theorem agrees_cons_erase {client : Client} {uids : List ℕ} (h : client.Agrees uids)
    (hinc : uids.Pairwise (· < ·)) {uid : ℕ} (hmem : uid ∈ uids)
    (hknown : ∀ v, some v ∈ client → uid < v) (first : ℕ) :
    client.Agrees (first :: uids.erase uid) := by
  induction h generalizing first with
  | nil => simp at hmem
  | @cons known x client uids hx h ih =>
      obtain ⟨hfirst, hinc'⟩ := List.pairwise_cons.mp hinc
      have hle : x ≤ uid := by
        rcases List.mem_cons.mp hmem with rfl | hmem'
        · exact le_rfl
        · exact (hfirst uid hmem').le
      have hnone : known = none := by
        cases known with
        | none => rfl
        | some v =>
            have hv := hknown v (by simp)
            have := hx v rfl
            omega
      subst hnone
      by_cases heq : x = uid
      · subst heq
        rw [List.erase_cons_head]
        exact .cons (by simp) h
      · rw [List.erase_cons_tail (by simpa using heq)]
        refine .cons (by simp) (ih hinc' ?_ (fun v hv ↦ hknown v (by simp [hv])) x)
        exact (List.mem_cons.mp hmem).resolve_left (Ne.symm heq)

/-- The client finds the UID that vanished, or one that it cannot tell from it. -/
theorem agrees_vanish {client : Client} {uids : List ℕ} (h : client.Agrees uids)
    (hinc : uids.Pairwise (· < ·)) {uid : ℕ} (hmem : uid ∈ uids) :
    (client.vanish uid).Agrees (uids.erase uid) := by
  induction h with
  | nil => simp at hmem
  | @cons known x client uids hx h ih =>
      obtain ⟨hfirst, hinc'⟩ := List.pairwise_cons.mp hinc
      cases known with
      | some v =>
          obtain rfl : v = x := hx v rfl
          rw [vanish]
          split
          · rename_i heq
            subst heq
            rwa [List.erase_cons_head]
          · rename_i hne
            rw [List.erase_cons_tail (by simpa using hne)]
            exact .cons hx (ih hinc' ((List.mem_cons.mp hmem).resolve_left (Ne.symm hne)))
      | none =>
          rw [vanish]
          split
          · -- a known UID up to `uid` follows, so `uid` comes later as well
            rename_i hany
            simp only [List.any_eq_true, Option.any_eq_true, decide_eq_true_eq] at hany
            obtain ⟨known, hknown, v, rfl, hle⟩ := hany
            obtain ⟨n, hn, hget⟩ := List.mem_iff_getElem.mp hknown
            have hv := (List.forall₂_iff_get.mp h).2 n hn (by rw [← h.length_eq]; exact hn) v
              (by simp [hget])
            have hmem' : v ∈ uids := by
              rw [hv]
              exact List.get_mem _ _
            have hlt := hfirst v hmem'
            have hne : x ≠ uid := by omega
            rw [List.erase_cons_tail (by simpa using hne)]
            exact .cons hx (ih hinc' ((List.mem_cons.mp hmem).resolve_left (Ne.symm hne)))
          · rename_i hany
            simp only [Bool.not_eq_true, List.any_eq_false, Option.any_eq_true, decide_eq_true_eq,
              not_exists, not_and, not_le] at hany
            by_cases heq : x = uid
            · subst heq
              rwa [List.erase_cons_head]
            · rw [List.erase_cons_tail (by simpa using heq)]
              exact agrees_cons_erase h hinc' ((List.mem_cons.mp hmem).resolve_left (Ne.symm heq))
                (fun v hv ↦ hany _ hv v rfl) x

/-- VANISHED for messages of the mailbox. -/
theorem agrees_vanished {client : Client} {uids : List ℕ} (h : client.Agrees uids)
    (hinc : uids.Pairwise (· < ·)) {gone : List ℕ} (hnd : gone.Nodup) (hsub : gone ⊆ uids) :
    (client.receive (.vanished gone)).Agrees (uids.filter (· ∉ gone)) := by
  rw [receive]
  induction gone generalizing client uids with
  | nil => simpa using h
  | cons uid gone ih =>
      obtain ⟨huid, hnd'⟩ := List.nodup_cons.mp hnd
      have hnodup : uids.Nodup := hinc.imp Nat.ne_of_lt
      have hrest := ih (agrees_vanish h hinc (hsub List.mem_cons_self))
        (hinc.sublist List.erase_sublist) hnd' fun u hu ↦ by
          have hne : u ≠ uid := fun hc ↦ huid (hc ▸ hu)
          exact (List.mem_erase_of_ne hne).mpr (hsub (List.mem_cons_of_mem _ hu))
      have hfilter : (uids.erase uid).filter (· ∉ gone) = uids.filter (· ∉ uid :: gone) := by
        rw [hnodup.erase_eq_filter, List.filter_filter]
        refine List.filter_congr fun u _ ↦ ?_
        by_cases hu : u = uid <;> simp [hu]
      rw [← hfilter]
      exact hrest

/-! ## EXISTS and FETCH -/

/-- EXISTS announces new messages. -/
theorem agrees_exist {client : Client} {uids : List ℕ} (h : client.Agrees uids) (new : List ℕ) :
    (client.receive (.exist (uids.length + new.length))).Agrees (uids ++ new) := by
  rw [receive, h.length_eq, Nat.add_sub_cancel_left]
  exact List.rel_append h (agrees_replicate new)

/-- EXISTS is left out only if there is nothing new. -/
theorem agrees_exist_if {client : Client} {uids : List ℕ} (h : client.Agrees uids) {new : List ℕ}
    {sent : Bool} (hsent : sent = false → new = []) {total : ℕ}
    (htotal : total = uids.length + new.length) :
    (client.receiveAll (if sent then [.exist total] else [])).Agrees (uids ++ new) := by
  cases sent with
  | true =>
      subst htotal
      exact agrees_exist h new
  | false =>
      rw [hsent rfl, List.append_nil]
      exact h

/-- FETCH tells the client the UID of a message. -/
theorem agrees_fetch {client : Client} {uids : List ℕ} (h : client.Agrees uids) {pos uid : ℕ}
    (hget : uids[pos]? = some uid) : (client.receive (.fetch (pos + 1) uid)).Agrees uids := by
  obtain ⟨hlt, hget'⟩ := List.getElem?_eq_some_iff.mp hget
  refine List.forall₂_iff_get.mpr ⟨by simpa [receive] using h.length_eq, fun n h₁ h₂ ↦ ?_⟩
  simp only [receive, List.length_set] at h₁
  simp only [receive, List.get_eq_getElem, List.getElem_set]
  split
  · rename_i heq
    subst heq
    intro u hu
    rw [Option.mem_some_iff] at hu
    rw [← hu, hget']
  · exact (List.forall₂_iff_get.mp h).2 n h₁ h₂

end Client

end ImapToJmap
