import ImapToJmap.Commands.Acl
import ImapToJmap.Run.Basic
import Mathlib.Data.Finset.Image
import Mathlib.Data.Set.Basic

/-!
# The rights a mailbox grants

What SETACL and DELETEACL have the JMAP server change, and what GETACL reports of it.  The eleven
rights of IMAP stand for nine of JMAP: `w` and `s` are granted together, and so are `t` and `e`, as
LISTRIGHTS says (`tied_iff`).

`getAcl_iff`: after every sequence of these commands, by any clients, GETACL lists for each
identifier exactly what the operations on sets of rights give, where a set always holds the rights
tied to its own, if and only if nobody holds `ACL::Modify` at the beginning.  GETACL shows that one
as `k`, but SETACL takes `k` for `ACL::CreateChild`, so it cannot be taken away alone.
-/

namespace ImapToJmap

open Fallible

/-! ## What the server holds -/

/-- `ACL`: what SETACL can grant, and `Modify`. -/
inductive PrincipalAcl where
  | granted (acl : Acl)
  | modify
deriving DecidableEq

/-- `Rights::from_acl` -/
def Rights.fromAcl : PrincipalAcl → Rights × Option Rights
  | .granted .read => (.lookup, none)
  | .modify => (.createMailbox, none)
  | .granted .delete => (.deleteMailbox, none)
  | .granted .readItems => (.read, none)
  | .granted .addItems => (.insert, none)
  | .granted .modifyItems => (.write, some .seen)
  | .granted .removeItems => (.deleteMessages, some .expunge)
  | .granted .createChild => (.createMailbox, none)
  | .granted .administer => (.administer, none)
  | .granted .submit => (.post, none)

/-- The rights that are added for one entry. -/
def Rights.ofAcl (acl : PrincipalAcl) : List Rights :=
  (Rights.fromAcl acl).1 :: (Rights.fromAcl acl).2.toList

/-- The loop of `handle_get_acl` over what an identifier holds. -/
def reportedRights (acls : List PrincipalAcl) : List Rights :=
  acls.foldl (fun rights acl ↦ (Rights.ofAcl acl).foldl Fetch.pushUnique rights) []

example : reportedRights [.granted .modifyItems, .modify, .granted .createChild] =
    [.write, .seen, .createMailbox] := by decide

/-- What the server holds for each identifier of a mailbox. -/
abbrev Shares := String → Finset PrincipalAcl

/-- The server, by what is documented of an update of a mailbox: a right of an identifier is set or
unset, or all that an identifier holds is replaced. -/
structure AclServer where
  update : Shares → AclChange → Shares
  mem_update_right : ∀ shares identifier acl isSet other held,
    held ∈ update shares (.right identifier acl isSet) other ↔
      if other = identifier ∧ held = .granted acl then isSet = true else held ∈ shares other
  mem_update_rights : ∀ shares identifier acls other held,
    held ∈ update shares (.rights identifier acls) other ↔
      if other = identifier then ∃ acl ∈ acls, held = .granted acl else held ∈ shares other

/-- There is such a server. -/
instance : Inhabited AclServer where
  default := {
    update shares
      | .right identifier acl isSet =>
          Function.update shares identifier
            (if isSet then insert (.granted acl) (shares identifier)
              else (shares identifier).erase (.granted acl))
      | .rights identifier acls =>
          Function.update shares identifier (acls.map PrincipalAcl.granted).toFinset
    mem_update_right shares identifier acl isSet other held := by
      by_cases hother : other = identifier
      · subst hother
        by_cases hheld : held = .granted acl <;> cases isSet <;> simp [hheld]
      · simp [hother]
    mem_update_rights shares identifier acls other held := by
      by_cases hother : other = identifier
      · subst hother
        simp [eq_comm]
      · simp [hother] }

/-- The shares of the mailboxes, by account and mailbox id. -/
abbrev AclStore := String → String → Shares

/-- Replace the value for a mailbox. -/
def updateMailbox {α : Type} (s : String → String → α) (accountId mailboxId : String) (a : α) :
    String → String → α :=
  Function.update s accountId (Function.update (s accountId) mailboxId a)

@[simp] theorem updateMailbox_apply {α : Type} (s : String → String → α)
    (accountId mailboxId : String) (a : α) (accountId' mailboxId' : String) :
    updateMailbox s accountId mailboxId a accountId' mailboxId' =
      if accountId' = accountId ∧ mailboxId' = mailboxId then a else s accountId' mailboxId' := by
  unfold updateMailbox
  by_cases haccount : accountId' = accountId
  · subst haccount
    by_cases hmailbox : mailboxId' = mailboxId
    · subst hmailbox
      simp
    · simp [hmailbox]
  · simp [haccount]

/-- A command of one of the clients: the names as its session has them cached, and whether the
server accepts the update. -/
structure AclCommand where
  getMailboxByName : String → Option MailboxId
  request : Request Command
  accepted : Bool

/-- `handle_set_acl` and `handle_delete_acl`; the other commands update nothing. -/
def AclCommand.outcome (c : AclCommand) : Fallible AclError AclOutcome :=
  match c.request.command with
  | .setAcl => handleSetAcl c.getMailboxByName c.request
  | .deleteAcl => handleDeleteAcl c.getMailboxByName c.request
  | _ => handleGetAcl c.getMailboxByName c.request

/-- The effect of a command on the server. -/
def AclCommand.apply (server : AclServer) (s : AclStore) (c : AclCommand) : AclStore :=
  match c.outcome with
  | .ok (.update accountId mailboxId changes) =>
      if c.accepted then
        updateMailbox s accountId mailboxId (changes.foldl server.update (s accountId mailboxId))
      else s
  | _ => s

/-! ## Sets of rights -/

/-- The groups that LISTRIGHTS reports. -/
def rightsGroups : List (List Rights) := [[.read], [.lookup], [.write, .seen], [.insert],
  [.expunge, .deleteMessages], [.createMailbox], [.deleteMailbox], [.post], [.administer]]

theorem handleListRights_groups {request : Request Command} {mailboxName identifier : String}
    {permissions : List (List Rights)}
    (h : handleListRights request = .ok (.listRights mailboxName identifier permissions)) :
    permissions = rightsGroups := by
  obtain ⟨arguments, -, h⟩ := bind_eq_ok_iff.mp h
  obtain ⟨_, -, h⟩ := bind_eq_ok_iff.mp h
  cases h
  rfl

/-- The rights that are tied to some of these. -/
def tiedTo (rights : Set Rights) : Set Rights :=
  {right | ∃ group ∈ rightsGroups, right ∈ group ∧ ∃ other ∈ group, other ∈ rights}

/-- What an identifier holds after its rights have been modified. -/
def ModRights.applyTo (self : ModRights) (held : Set Rights) : Set Rights :=
  match self.op with
  | .add => held ∪ tiedTo {right | right ∈ self.rights}
  | .remove => held \ tiedTo {right | right ∈ self.rights}
  | .replace => tiedTo {right | right ∈ self.rights}

/-- The rights of each identifier, by account and mailbox id. -/
abbrev RightsTable := String → String → String → Set Rights

/-- What a command is meant to modify: the mailbox, the identifier, and how.  DELETEACL leaves no
rights. -/
def AclCommand.modification (c : AclCommand) : Option (String × String × String × ModRights) :=
  match openAcl c.getMailboxByName c.request with
  | .ok (arguments, accountId, mailboxId) =>
      match c.request.command, arguments.identifier, arguments.modRights with
      | .setAcl, some identifier, some modRights =>
          some (accountId, mailboxId, identifier, modRights)
      | .deleteAcl, some identifier, _ => some (accountId, mailboxId, identifier, ⟨.replace, []⟩)
      | _, _, _ => none
  | .error _ => none

/-- What a command is meant to do. -/
def AclCommand.modify (t : RightsTable) (c : AclCommand) : RightsTable :=
  match c.modification with
  | some (accountId, mailboxId, identifier, modRights) =>
      if c.accepted then
        updateMailbox t accountId mailboxId (Function.update (t accountId mailboxId) identifier
          (modRights.applyTo (t accountId mailboxId identifier)))
      else t
  | none => t

/-- The rights of IMAP that the shares of a mailbox stand for. -/
def Shares.rights (shares : Shares) (identifier : String) : Set Rights :=
  {right | ∃ acl ∈ shares identifier, right ∈ Rights.ofAcl acl}

def AclStore.rights (s : AclStore) : RightsTable := fun accountId mailboxId ↦
  (s accountId mailboxId).rights

/-! ## What is reported -/

theorem mem_pushUnique {α : Type} [DecidableEq α] {l : List α} {a b : α} :
    a ∈ Fetch.pushUnique l b ↔ a ∈ l ∨ a = b := by
  unfold Fetch.pushUnique
  split
  · next h =>
      constructor
      · exact .inl
      · rintro (ha | rfl)
        · exact ha
        · exact h
  · simp

theorem nodup_pushUnique {α : Type} [DecidableEq α] {l : List α} (h : l.Nodup) (a : α) :
    (Fetch.pushUnique l a).Nodup := by
  unfold Fetch.pushUnique
  split
  · exact h
  · next hnot => exact h.append (List.nodup_singleton a) (by simpa using hnot)

theorem mem_foldl_pushUnique {α : Type} [DecidableEq α] {l as : List α} {a : α} :
    a ∈ as.foldl Fetch.pushUnique l ↔ a ∈ l ∨ a ∈ as := by
  induction as generalizing l with
  | nil => simp
  | cons b as ih => rw [List.foldl_cons, ih, mem_pushUnique, List.mem_cons, or_assoc]

theorem nodup_foldl_pushUnique {α : Type} [DecidableEq α] {l : List α} (h : l.Nodup)
    (as : List α) : (as.foldl Fetch.pushUnique l).Nodup := by
  induction as generalizing l with
  | nil => exact h
  | cons b as ih => exact ih (nodup_pushUnique h b)

theorem reportedRights_eq (acls : List PrincipalAcl) :
    reportedRights acls = (acls.flatMap Rights.ofAcl).foldl Fetch.pushUnique [] := by
  rw [List.foldl_flatMap]
  rfl

/-- **No right is reported twice.** -/
theorem nodup_reportedRights (acls : List PrincipalAcl) : (reportedRights acls).Nodup := by
  rw [reportedRights_eq]
  exact nodup_foldl_pushUnique List.nodup_nil _

theorem mem_reportedRights {acls : List PrincipalAcl} {right : Rights} :
    right ∈ reportedRights acls ↔ ∃ acl ∈ acls, right ∈ Rights.ofAcl acl := by
  rw [reportedRights_eq, mem_foldl_pushUnique, List.mem_flatMap]
  simp

theorem mem_ofAcl_granted {acl : Acl} {right : Rights} :
    right ∈ Rights.ofAcl (.granted acl) ↔ right.intoAcl = acl := by
  cases right <;> cases acl <;> decide

/-- **Rights of one group** are the ones that stand for the same right of JMAP. -/
theorem tied_iff {right other : Rights} :
    (∃ group ∈ rightsGroups, right ∈ group ∧ other ∈ group) ↔ right.intoAcl = other.intoAcl := by
  cases right <;> cases other <;> decide

theorem mem_tiedTo {rights : Set Rights} {right : Rights} :
    right ∈ tiedTo rights ↔ ∃ other ∈ rights, right.intoAcl = other.intoAcl := by
  constructor
  · rintro ⟨group, hgroup, hright, other, hother, hmem⟩
    exact ⟨other, hmem, tied_iff.mp ⟨group, hgroup, hright, hother⟩⟩
  · rintro ⟨other, hmem, heq⟩
    obtain ⟨group, hgroup, hright, hother⟩ := tied_iff.mpr heq
    exact ⟨group, hgroup, hright, other, hother, hmem⟩

/-! ## What is changed -/

/-- Nobody holds `ACL::Modify` on a mailbox. -/
def Shares.Unmodified (shares : Shares) : Prop := ∀ identifier, .modify ∉ shares identifier

theorem Shares.Unmodified.mem_rights {shares : Shares} (h : shares.Unmodified)
    {identifier : String} {right : Rights} :
    right ∈ shares.rights identifier ↔ .granted right.intoAcl ∈ shares identifier := by
  constructor
  · rintro ⟨acl, hacl, hright⟩
    cases acl with
    | granted acl => exact mem_ofAcl_granted.mp hright ▸ hacl
    | modify => exact absurd hacl (h identifier)
  · exact fun hacl ↦ ⟨_, hacl, mem_ofAcl_granted.mpr rfl⟩

/-- The changes for an operation on the rights of an identifier. -/
def ModRights.changes (self : ModRights) (identifier : String) : List AclChange :=
  match self.op with
  | .add => self.rights.map fun right ↦ .right identifier right.intoAcl true
  | .remove => self.rights.map fun right ↦ .right identifier right.intoAcl false
  | .replace => [.rights identifier (self.rights.map Rights.intoAcl)]

theorem mapM_changeRight (identifier : String) (isSet : Bool) (rights : List Rights) :
    rights.mapM (changeRight (some identifier) isSet) =
      .ok (rights.map fun right ↦ .right identifier right.intoAcl isSet) := by
  induction rights with
  | nil => rfl
  | cons right rights ih =>
      rw [List.mapM_cons, ih]
      rfl

theorem setAclChanges_some (identifier : String) (modRights : ModRights) :
    setAclChanges (some identifier) modRights = .ok (modRights.changes identifier) := by
  rw [setAclChanges, ModRights.changes]
  cases modRights.op with
  | add => exact mapM_changeRight identifier true modRights.rights
  | remove => exact mapM_changeRight identifier false modRights.rights
  | replace => rfl

namespace AclServer

variable (server : AclServer) (shares : Shares) (identifier : String)

theorem update_right (acl : Acl) (isSet : Bool) :
    server.update shares (.right identifier acl isSet) = Function.update shares identifier
      (if isSet then insert (.granted acl) (shares identifier)
        else (shares identifier).erase (.granted acl)) := by
  funext other
  ext held
  rw [server.mem_update_right]
  by_cases hother : other = identifier
  · subst hother
    rw [Function.update_self]
    by_cases hheld : held = .granted acl
    · cases isSet <;> simp [hheld]
    · cases isSet <;> simp [hheld]
  · rw [Function.update_of_ne hother, if_neg fun h ↦ hother h.1]

theorem update_rights (acls : List Acl) : server.update shares (.rights identifier acls) =
    Function.update shares identifier (acls.map PrincipalAcl.granted).toFinset := by
  funext other
  ext held
  rw [server.mem_update_rights]
  by_cases hother : other = identifier
  · subst hother
    rw [if_pos rfl, Function.update_self, List.mem_toFinset, List.mem_map]
    exact exists_congr fun acl ↦ and_congr_right fun _ ↦ eq_comm
  · rw [if_neg hother, Function.update_of_ne hother]

/-- Rights that are granted, or withdrawn, one after the other. -/
theorem foldl_right (isSet : Bool) (rights : List Rights) :
    (rights.map fun right ↦ AclChange.right identifier right.intoAcl isSet).foldl server.update
        shares =
      Function.update shares identifier
        (if isSet then
          shares identifier ∪ (rights.map fun right ↦ .granted right.intoAcl).toFinset
        else shares identifier \ (rights.map fun right ↦ .granted right.intoAcl).toFinset) := by
  induction rights generalizing shares with
  | nil => simp
  | cons right rights ih =>
      rw [List.map_cons, List.foldl_cons, ih, update_right, Function.update_idem,
        Function.update_self]
      congr 1
      ext acl
      cases isSet with
      | true =>
          simp only [if_true, Finset.mem_union, Finset.mem_insert, List.map_cons,
            List.mem_toFinset, List.mem_cons]
          tauto
      | false =>
          simp only [Bool.false_eq_true, if_false, Finset.mem_sdiff, Finset.mem_erase,
            List.map_cons, List.mem_toFinset, List.mem_cons]
          tauto

end AclServer

theorem mem_granted {rights : List Rights} {right : Rights} :
    PrincipalAcl.granted right.intoAcl ∈
        (rights.map fun other ↦ PrincipalAcl.granted other.intoAcl).toFinset ↔
      right ∈ tiedTo {other | other ∈ rights} := by
  rw [mem_tiedTo]
  simp only [List.mem_toFinset, List.mem_map, PrincipalAcl.granted.injEq, Set.mem_ofPred_eq]
  exact exists_congr fun other ↦ and_congr_right fun _ ↦ eq_comm

theorem modify_notMem_granted (rights : List Rights) :
    PrincipalAcl.modify ∉ (rights.map fun other ↦ PrincipalAcl.granted other.intoAcl).toFinset := by
  simp

/-- What an operation leaves at the server. -/
def ModRights.holds (self : ModRights) (held : Finset PrincipalAcl) : Finset PrincipalAcl :=
  let acls := (self.rights.map fun right ↦ PrincipalAcl.granted right.intoAcl).toFinset
  match self.op with
  | .add => held ∪ acls
  | .remove => held \ acls
  | .replace => acls

theorem foldl_changes (server : AclServer) (modRights : ModRights) (identifier : String)
    (shares : Shares) : (modRights.changes identifier).foldl server.update shares =
      Function.update shares identifier (modRights.holds (shares identifier)) := by
  rw [ModRights.changes, ModRights.holds]
  cases modRights.op with
  | add => exact server.foldl_right shares identifier true modRights.rights
  | remove => exact server.foldl_right shares identifier false modRights.rights
  | replace =>
      simp only [List.foldl_cons, List.foldl_nil, server.update_rights, List.map_map]
      rfl

/-- **One operation** on the rights of one identifier. -/
theorem Shares.Unmodified.update {shares : Shares} (h : shares.Unmodified) (identifier : String)
    (modRights : ModRights) :
    Shares.Unmodified (Function.update shares identifier
        (modRights.holds (shares identifier))) ∧
      Shares.rights (Function.update shares identifier (modRights.holds (shares identifier))) =
        Function.update shares.rights identifier
          (modRights.applyTo (shares.rights identifier)) := by
  have hunmodified : Shares.Unmodified (Function.update shares identifier
      (modRights.holds (shares identifier))) := by
    intro other
    by_cases hother : other = identifier
    · subst hother
      rw [Function.update_self, ModRights.holds]
      cases modRights.op with
      | add => simpa using h other
      | remove => simpa using fun hmem ↦ absurd hmem (h other)
      | replace => exact modify_notMem_granted _
    · rw [Function.update_of_ne hother]
      exact h other
  refine ⟨hunmodified, ?_⟩
  funext other
  ext right
  rw [hunmodified.mem_rights]
  by_cases hother : other = identifier
  · subst hother
    rw [Function.update_self, Function.update_self, ModRights.holds, ModRights.applyTo]
    cases modRights.op with
    | add => rw [Finset.mem_union, Set.mem_union, h.mem_rights, mem_granted]
    | remove => rw [Finset.mem_sdiff, Set.mem_sdiff, h.mem_rights, mem_granted]
    | replace => exact mem_granted
  · rw [Function.update_of_ne hother, Function.update_of_ne hother, h.mem_rights]

/-! ## Commands -/

namespace AclCommand

variable {server : AclServer} {c : AclCommand} {accountId mailboxId identifier : String}
  {modRights : ModRights}

/-- SETACL and DELETEACL make the changes for what they are meant to do. -/
theorem outcome_of_modification
    (h : c.modification = some (accountId, mailboxId, identifier, modRights)) :
    c.outcome = .ok (.update accountId mailboxId (modRights.changes identifier)) := by
  cases hopen : openAcl c.getMailboxByName c.request with
  | error e => simp [modification, hopen] at h
  | ok found =>
      simp only [modification, hopen] at h
      split at h
      · next identifier modRights hcommand hidentifier hmodRights =>
          cases h
          have hset : handleSetAcl c.getMailboxByName c.request =
              .ok (.update found.2.1 found.2.2 (modRights.changes identifier)) := by
            refine bind_eq_ok_iff.mpr ⟨found, hopen, ?_⟩
            refine bind_eq_ok_iff.mpr ⟨modRights, unwrap_eq_ok_iff.mpr hmodRights, ?_⟩
            rw [hidentifier, setAclChanges_some]
            rfl
          simp only [outcome, hcommand]
          exact hset
      · next _ identifier hcommand hidentifier =>
          cases h
          have hdelete : handleDeleteAcl c.getMailboxByName c.request =
              .ok (.update found.2.1 found.2.2 [.rights identifier []]) := by
            refine bind_eq_ok_iff.mpr ⟨found, hopen, ?_⟩
            exact bind_eq_ok_iff.mpr ⟨identifier, unwrap_eq_ok_iff.mpr hidentifier, rfl⟩
          simp only [outcome, hcommand]
          exact hdelete
      · cases h

/-- Nothing else is updated. -/
theorem modification_of_outcome {changes : List AclChange}
    (h : c.outcome = .ok (.update accountId mailboxId changes)) : c.modification.isSome = true := by
  unfold outcome at h
  split at h
  · next hcommand =>
      obtain ⟨found, hopen, h⟩ := bind_eq_ok_iff.mp h
      obtain ⟨modRights, hmodRights, h⟩ := bind_eq_ok_iff.mp h
      have hfields := openAcl_fields hopen
      rw [hcommand] at hfields
      obtain ⟨identifier, hidentifier⟩ := Option.isSome_iff_exists.mp
        (congrArg Prod.fst (Option.some.inj hfields)).symm
      simp [modification, hopen, hcommand, hidentifier, unwrap_eq_ok_iff.mp hmodRights]
  · next hcommand =>
      obtain ⟨found, hopen, h⟩ := bind_eq_ok_iff.mp h
      obtain ⟨identifier, hidentifier, h⟩ := bind_eq_ok_iff.mp h
      simp [modification, hopen, hcommand, unwrap_eq_ok_iff.mp hidentifier]
  · obtain ⟨found, hopen, h⟩ := bind_eq_ok_iff.mp h
    cases h

/-- What a command does, in one operation on one identifier. -/
theorem apply_eq (server : AclServer) (s : AclStore) (c : AclCommand) :
    c.apply server s =
      match c.modification with
      | some (accountId, mailboxId, identifier, modRights) =>
          if c.accepted then
            updateMailbox s accountId mailboxId (Function.update (s accountId mailboxId) identifier
              (modRights.holds (s accountId mailboxId identifier)))
          else s
      | none => s := by
  cases h : c.modification with
  | some modification =>
      simp only [apply, outcome_of_modification h, foldl_changes]
  | none =>
      unfold apply
      split
      · next houtcome =>
          have hsome := modification_of_outcome houtcome
          rw [h] at hsome
          cases hsome
      · rfl

/-- **One command**, if nobody holds `ACL::Modify`. -/
theorem apply_rights {s : AclStore} (h : ∀ accountId mailboxId, (s accountId mailboxId).Unmodified)
    (c : AclCommand) :
    (∀ accountId mailboxId, (c.apply server s accountId mailboxId).Unmodified) ∧
      (c.apply server s).rights = c.modify s.rights := by
  rw [apply_eq, modify]
  cases c.modification with
  | none => exact ⟨h, rfl⟩
  | some modification =>
      obtain ⟨accountId, mailboxId, identifier, modRights⟩ := modification
      cases c.accepted with
      | false => exact ⟨h, rfl⟩
      | true =>
          obtain ⟨hunmodified, hrights⟩ := (h accountId mailboxId).update identifier modRights
          simp only [if_true]
          constructor
          · intro accountId' mailboxId'
            rw [updateMailbox_apply]
            split
            · exact hunmodified
            · exact h accountId' mailboxId'
          · funext accountId' mailboxId'
            rw [AclStore.rights, updateMailbox_apply, updateMailbox_apply]
            split
            · exact hrights
            · rfl

/-- **Every sequence of commands**, if nobody holds `ACL::Modify`. -/
theorem exec_rights {s : AclStore} (h : ∀ accountId mailboxId, (s accountId mailboxId).Unmodified)
    (run : List AclCommand) :
    (∀ accountId mailboxId,
      (Run.exec (fun s c ↦ c.apply server s) s run accountId mailboxId).Unmodified) ∧
      AclStore.rights (Run.exec (fun s c ↦ c.apply server s) s run) =
        Run.exec (fun t c ↦ c.modify t) s.rights run := by
  induction run generalizing s with
  | nil => exact ⟨h, rfl⟩
  | cons c run ih =>
      obtain ⟨hunmodified, hrights⟩ := @apply_rights server s h c
      rw [Run.exec_cons, Run.exec_cons, ← hrights]
      exact ih hunmodified

theorem readString_asBytes (e : AclError) (text : String) (tokens : List Token) :
    readString e (.argument (asBytes text) :: tokens) = .ok (text, tokens) := by
  simp [readString, Token.unwrapString]

/-- `SETACL` of `-k`. -/
def withoutCreate (accountId mailboxId identifier : String) : AclCommand where
  getMailboxByName _ := some ⟨accountId, some mailboxId⟩
  request := ⟨"a", .setAcl, [.argument (asBytes "x"), .argument (asBytes identifier),
    .argument (asBytes "-k")]⟩
  accepted := true

theorem modification_withoutCreate (accountId mailboxId identifier : String) :
    (withoutCreate accountId mailboxId identifier).modification =
      some (accountId, mailboxId, identifier, ⟨.remove, [.createMailbox]⟩) := by
  have hparse : parseAcl (withoutCreate accountId mailboxId identifier).request =
      .ok ⟨"x", some identifier, some ⟨.remove, [.createMailbox]⟩⟩ := by
    have hrights : ModRights.parse (asBytes "-k") = .ok ⟨.remove, [.createMailbox]⟩ := by
      decide +kernel
    refine bind_eq_ok_iff.mpr ⟨(true, true), rfl, ?_⟩
    refine bind_eq_ok_iff.mpr ⟨("x", _), lift_eq_ok_iff.mpr (readString_asBytes _ _ _), ?_⟩
    refine bind_eq_ok_iff.mpr ⟨(some identifier, [.argument (asBytes "-k")]),
      lift_eq_ok_iff.mpr ?_, ?_⟩
    · rw [readIdentifier, if_pos rfl, readString_asBytes]
      rfl
    · refine bind_eq_ok_iff.mpr ⟨some ⟨.remove, [.createMailbox]⟩, lift_eq_ok_iff.mpr ?_, rfl⟩
      simp [readModRights, Token.unwrapBytes, hrights, Except.map]
  have hopen : openAcl (withoutCreate accountId mailboxId identifier).getMailboxByName
      (withoutCreate accountId mailboxId identifier).request =
        .ok (⟨"x", some identifier, some ⟨.remove, [.createMailbox]⟩⟩, accountId, mailboxId) :=
    bind_eq_ok_iff.mpr ⟨_, hparse, rfl⟩
  simp only [modification, hopen]
  rfl

end AclCommand

open AclCommand

/-- **GETACL after every sequence of commands.**  What is reported for each identifier of each
mailbox, in whatever order the server lists what it holds, is what the operations on sets of rights
give from what was reported at the beginning, and no right is reported twice.  This is so for every
sequence of SETACL and DELETEACL if and only if nobody holds `ACL::Modify` at the beginning. -/
theorem getAcl_iff (server : AclServer) (s : AclStore) :
    (∀ (run : List AclCommand) (accountId mailboxId identifier : String)
      (acls : List PrincipalAcl), (∀ acl, acl ∈ acls ↔
        acl ∈ Run.exec (fun s c ↦ c.apply server s) s run accountId mailboxId identifier) →
      (reportedRights acls).Nodup ∧ ∀ right, right ∈ reportedRights acls ↔
        right ∈ Run.exec (fun t c ↦ c.modify t) s.rights run accountId mailboxId identifier) ↔
    ∀ accountId mailboxId identifier, .modify ∉ s accountId mailboxId identifier := by
  constructor
  · intro h accountId mailboxId identifier hmodify
    -- `-k` leaves `ACL::Modify`, which is reported as `k`
    have hmodification := modification_withoutCreate accountId mailboxId identifier
    have hmem : PrincipalAcl.modify ∈ (withoutCreate accountId mailboxId identifier).apply server s
        accountId mailboxId identifier := by
      rw [apply_eq, hmodification]
      simp [withoutCreate, ModRights.holds, hmodify]
    have hreported := (h [withoutCreate accountId mailboxId identifier] accountId mailboxId
      identifier _ fun acl ↦ Finset.mem_toList).2 .createMailbox
    have hleft := hreported.mp
      (mem_reportedRights.mpr ⟨.modify, Finset.mem_toList.mpr hmem, by decide⟩)
    have hafter : (withoutCreate accountId mailboxId identifier).modify s.rights accountId mailboxId
        identifier = s.rights accountId mailboxId identifier \ tiedTo {other | other ∈
          [Rights.createMailbox]} := by
      simp only [AclCommand.modify, hmodification]
      show updateMailbox s.rights accountId mailboxId _ accountId mailboxId identifier = _
      rw [updateMailbox_apply, if_pos ⟨rfl, rfl⟩, Function.update_self, ModRights.applyTo]
    rw [Run.exec_cons, Run.exec_nil, hafter] at hleft
    exact hleft.2 (mem_tiedTo.mpr ⟨.createMailbox, by simp, rfl⟩)
  · intro h run accountId mailboxId identifier acls hacls
    obtain ⟨-, hrights⟩ := exec_rights h run
    refine ⟨nodup_reportedRights acls, fun right ↦ ?_⟩
    rw [mem_reportedRights, ← hrights]
    exact exists_congr fun acl ↦ and_congr_left fun _ ↦ hacls acl

end ImapToJmap
