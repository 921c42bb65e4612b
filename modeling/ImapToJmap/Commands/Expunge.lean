import ImapToJmap.Core.View
import ImapToJmap.Jmap.Store
import ImapToJmap.Run.Basic

/-!
# EXPUNGE destroys emails, not memberships

The commands that file, flag and remove messages, in their effect on the store of one account:
`commands/copy_move.rs`, `commands/store.rs`, `commands/expunge.rs` and `commands/close.rs`.

Within an account COPY files the *same* email in one more mailbox, and MOVE takes it out of the
source mailbox by a patch.  EXPUNGE does not patch.  It asks for the emails of the mailbox that
carry `$deleted` and destroys them, wherever else they are filed.  `expunge_keeps_others_iff` is
the exact extent: along any run of any clients' commands an EXPUNGE leaves the other mailboxes
alone if and only if nothing that is marked for it is filed in one of them.
-/

namespace ImapToJmap

open Jmap

/-! ## The commands -/

/-- The patches of a same-account COPY or MOVE. -/
def copyMovePatches (src : MailboxId) (dest : String) (isMove : Bool) : List Patch :=
  .mailboxId dest true ::
    if isMove then (src.mailboxId.map fun m ↦ Patch.mailboxId m false).toList else []

/-- The patches of STORE. -/
def storePatches (operation : Operation) (keywords : List Flag) : List Patch :=
  match operation with
  | .set => [.keywords (keywords.map Flag.toJmap)]
  | .add => keywords.map fun k ↦ .keyword k.toJmap true
  | .clear => keywords.map fun k ↦ .keyword k.toJmap false

/-- The query of EXPUNGE. -/
def expungeFilter (mailbox : MailboxId) (ids : Option (List String)) : Filter where
  hasKeyword := Flag.deleted.toJmap
  inMailbox := mailbox.mailboxId
  ids := ids

/-- A client's command on the mailbox it has selected, with the answers of the JMAP server that
matter: the ids for which a change is accepted, and for STORE with UNCHANGEDSINCE the ids reported
as changed. -/
inductive ClientCommand where
  | copyMove (src : SelectedMailbox) (sequence : Sequence) (isUid : Bool) (dest : Option String)
      (isMove : Bool) (accepted : String → Bool)
  | store (mailbox : SelectedMailbox) (sequence : Sequence) (isUid : Bool) (operation : Operation)
      (keywords : List Flag) (changed : Option (List String)) (accepted : String → Bool)
  | expunge (mailbox : SelectedMailbox) (sequence : Option Sequence) (accepted : String → Bool)
  | close (mailbox : SelectedMailbox) (accepted : String → Bool)

namespace ClientCommand

/-- The ids a sequence set resolves to; the command stops at an error. -/
def targets (mailbox : SelectedMailbox) (sequence : Sequence) (isUid : Bool) : List String :=
  match mailbox.sequenceToJmap sequence isUid with
  | .ok ids => ids.keys
  | .error _ => []

/-- `SessionData::expunge`: the ids it destroys. -/
def expunged (s : Store) (mailbox : SelectedMailbox) (sequence : Option Sequence)
    (accepted : String → Bool) : String → Bool :=
  match sequence with
  | none => fun id ↦ s.query (expungeFilter mailbox.id none) id && accepted id
  | some sequence =>
      match mailbox.sequenceToJmap sequence true with
      | .ok ids => fun id ↦ s.query (expungeFilter mailbox.id (some ids.keys)) id && accepted id
      | .error _ => fun _ ↦ false

/-- What the command destroys, and from which mailbox. -/
def removes (s : Store) : ClientCommand → Option (MailboxId × (String → Bool))
  | expunge mailbox sequence accepted =>
      some (mailbox.id, expunged s mailbox sequence accepted)
  | close mailbox accepted =>
      if mailbox.isSelect then some (mailbox.id, expunged s mailbox none accepted) else none
  | _ => none

/-- The effect of the command on the store. -/
def apply (s : Store) (command : ClientCommand) : Store :=
  match command with
  | copyMove src sequence isUid dest isMove accepted =>
      match dest with
      | none => s
      | some dest =>
          if src.id.mailboxId = some dest then s
          else s.update (fun id ↦ id ∈ targets src sequence isUid && accepted id)
            (copyMovePatches src.id dest isMove)
  | store mailbox sequence isUid operation keywords changed accepted =>
      s.update (fun id ↦ id ∈ targets mailbox sequence isUid && !(changed.any (id ∈ ·)) &&
        accepted id) (storePatches operation keywords)
  | expunge .. | close .. =>
      match command.removes s with
      | some (_, ids) => s.destroy ids
      | none => s

/-- If the command expunges a mailbox, every message that was in another mailbox is still there. -/
def KeepsOthers (s : Store) (command : ClientCommand) : Prop :=
  ∀ r ∈ command.removes s, ∀ other, some other ≠ r.1.mailboxId → ∀ id, s.InMailbox id other →
    (command.apply s).InMailbox id other

/-- The email is flagged `\Deleted`, is in the mailbox, and is named by the sequence set if there
is one. -/
def Marked (mailbox : SelectedMailbox) (sequence : Option Sequence) (id : String)
    (email : Email) : Prop :=
  Flag.deleted.toJmap ∈ email.keywords ∧ (∀ m ∈ mailbox.id.mailboxId, m ∈ email.mailboxIds) ∧
    ∀ seq ∈ sequence, id ∈ targets mailbox seq true

/-- No marked email that the server lets go is filed in another mailbox as well. -/
def UnsharedIn (s : Store) (mailbox : SelectedMailbox) (sequence : Option Sequence)
    (accepted : String → Bool) : Prop :=
  ∀ id email, s id = some email → Marked mailbox sequence id email → accepted id = true →
    ∀ other ∈ email.mailboxIds, some other = mailbox.id.mailboxId

/-- If the command expunges a mailbox, what is marked there is filed nowhere else. -/
def Unshared (s : Store) : ClientCommand → Prop
  | expunge mailbox sequence accepted => UnsharedIn s mailbox sequence accepted
  | close mailbox accepted => mailbox.isSelect = true → UnsharedIn s mailbox none accepted
  | _ => True

/-- EXPUNGE destroys what is marked. -/
theorem expunged_iff {s : Store} {mailbox : SelectedMailbox} {sequence : Option Sequence}
    {accepted : String → Bool} {id : String} :
    expunged s mailbox sequence accepted id = true ↔
      ∃ email, s id = some email ∧ Marked mailbox sequence id email ∧ accepted id = true := by
  have hquery : ∀ ids, (s.query (expungeFilter mailbox.id ids) id && accepted id) = true ↔
      ∃ email, s id = some email ∧ (Flag.deleted.toJmap ∈ email.keywords ∧
        (∀ m ∈ mailbox.id.mailboxId, m ∈ email.mailboxIds) ∧ ∀ l ∈ ids, id ∈ l) ∧
        accepted id = true := by
    intro ids
    simp only [Store.query, Filter.test, expungeFilter, Option.any_eq_true, Option.all_eq_true,
      Bool.and_eq_true, decide_eq_true_eq, Option.mem_def, ← exists_and_right, and_assoc]
  cases sequence with
  | none => simpa [expunged, Marked] using hquery none
  | some seq =>
      cases hseq : mailbox.sequenceToJmap seq true with
      | ok ids => simpa [expunged, Marked, targets, hseq] using hquery (some ids.keys)
      | error e => simp [expunged, Marked, targets, hseq]

theorem apply_of_removes {s : Store} {command : ClientCommand} {r : MailboxId × (String → Bool)}
    (h : command.removes s = some r) : command.apply s = s.destroy r.2 := by
  cases command with
  | copyMove | store => simp [removes] at h
  | expunge | close => simp only [apply, h]

/-- What an expunge of the marked emails leaves in place. -/
theorem destroy_expunged_iff (s : Store) (mailbox : SelectedMailbox) (sequence : Option Sequence)
    (accepted : String → Bool) :
    (∀ other, some other ≠ mailbox.id.mailboxId → ∀ id, s.InMailbox id other →
      (s.destroy (expunged s mailbox sequence accepted)).InMailbox id other) ↔
      UnsharedIn s mailbox sequence accepted := by
  constructor
  · intro hkeep id email hid hmarked hacc other hother
    by_contra hne
    have h := (Store.inMailbox_destroy.mp (hkeep other hne id ⟨email, hid, hother⟩)).2
    rw [expunged_iff.mpr ⟨email, hid, hmarked, hacc⟩] at h
    exact absurd h (by decide)
  · intro hun other hne id hin
    refine Store.inMailbox_destroy.mpr ⟨hin, ?_⟩
    rw [← Bool.not_eq_true]
    intro hid
    obtain ⟨email, hemail, hmarked, hacc⟩ := expunged_iff.mp hid
    obtain ⟨email', hemail', hother⟩ := hin
    rw [hemail] at hemail'
    obtain rfl := Option.some.inj hemail'
    exact hne (hun id email hemail hmarked hacc other hother)

/-- **One command.** -/
theorem keepsOthers_iff (s : Store) (command : ClientCommand) :
    command.KeepsOthers s ↔ command.Unshared s := by
  cases command with
  | copyMove | store => simp [KeepsOthers, removes, Unshared]
  | expunge mailbox sequence accepted =>
      rw [Unshared, ← destroy_expunged_iff]
      simp [KeepsOthers, removes, apply_of_removes]
  | close mailbox accepted =>
      rw [Unshared, ← destroy_expunged_iff]
      cases hsel : mailbox.isSelect with
      | false => simp [KeepsOthers, removes, hsel]
      | true => simp [KeepsOthers, removes, apply, hsel]

end ClientCommand

/-- **Expunging one mailbox and the others**: along every run, each EXPUNGE or CLOSE keeps every
message of every other mailbox in place, if and only if none of them finds an email marked for
removal that is filed in another mailbox as well. -/
theorem expunge_keeps_others_iff (s : Store) (run : List ClientCommand) :
    Run.Along ClientCommand.apply (fun s c ↦ c.KeepsOthers s) s run ↔
      Run.Along ClientCommand.apply (fun s c ↦ c.Unshared s) s run :=
  Run.along_congr fun s c ↦ c.keepsOthers_iff s

/-- A client with one message, `M1`, in the mailbox `A`. -/
def oneMessage : SelectedMailbox where
  id := ⟨"u1", some "A"⟩
  state := ⟨2, 1, ["M1"], [1], 1, ""⟩
  savedSearch := .none
  isSelect := true

/-- **A copy lost.**  `M1` is copied from `A` to `B`, flagged `\Deleted` in `A` and expunged from
`A`.  It was in `B` before the EXPUNGE, and is not after it. -/
theorem expunge_loses_copy :
    let s := Run.exec ClientCommand.apply
      (fun id ↦ if id = "M1" then some ⟨{"A"}, ∅⟩ else none) [
        .copyMove oneMessage (.number 1) false (some "B") false fun _ ↦ true,
        .store oneMessage (.number 1) false .add [.deleted] none fun _ ↦ true]
    s.InMailbox "M1" "B" ∧
      ¬ ((ClientCommand.expunge oneMessage none fun _ ↦ true).apply s).InMailbox "M1" "B" ∧
      ¬ (ClientCommand.expunge oneMessage none fun _ ↦ true).KeepsOthers s := by
  have hin : (Run.exec ClientCommand.apply
      (fun id ↦ if id = "M1" then some ⟨{"A"}, ∅⟩ else none) [
        .copyMove oneMessage (.number 1) false (some "B") false fun _ ↦ true,
        .store oneMessage (.number 1) false .add [.deleted] none fun _ ↦ true] :
      Store).InMailbox "M1" "B" := by decide +kernel
  refine ⟨hin, by decide +kernel, fun h ↦ ?_⟩
  exact absurd (h _ rfl "B" (by decide) "M1" hin) (by decide +kernel)

end ImapToJmap
