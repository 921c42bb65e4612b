import ImapToJmap.Mailboxes.Account
import ImapToJmap.Run.Loop

/-!
# The walk that builds the names

The last loop of `fetch_account_mailboxes`, as the source has it: an iterator over the listing, and
a stack of the iterators that have been left for a level below.  Each level begins with a fresh
iterator over the whole listing, so an entry may come up any number of times.

What one entry costs depends on the room that is left on the stack (`weight`): with no room it is
one round, and with one level more it is that of a whole listing below.  `decreases_step` is that
every round takes from the weight of the entries that are still to come, on all levels together, and
`walk_eq` that the loop returns what the recursion of `Account.ofListing` does.
-/

namespace ImapToJmap

open Jmap Loop

/-- The variables of the loop. -/
structure Walk where
  iter : List MailboxObject
  parentId : Option String
  path : List String
  iterStack : List (List MailboxObject × Option String × List String)
  account : Account

namespace Walk

/-- The message of the error for a mailbox without an id. -/
def nullMailboxId : String := "Got null mailboxId while fetching mailboxes"

/-- One round. -/
def step (result : List MailboxObject) (s : Walk) : Except String (Walk ⊕ Account) :=
  match s.iter with
  | mailbox :: iter =>
      if mailbox.parentId = s.parentId then
        match mailbox.id with
        | none => .error nullMailboxId
        | some mailboxId =>
            let mailboxPath := s.path ++ [pathItem s.account.namePrefix mailbox]
            let hasChildren := result.any fun child ↦ child.parentId = mailbox.id
            let account := s.account.enter mailbox mailboxId mailboxPath hasChildren
            if hasChildren ∧ s.iterStack.length < 100 then
              .ok (.inl
                { iter := result
                  parentId := mailbox.id
                  path := mailboxPath
                  iterStack := (iter, s.parentId, s.path) :: s.iterStack
                  account })
            else .ok (.inl { s with iter, account })
      else .ok (.inl { s with iter })
  | [] =>
      match s.iterStack with
      | (iter, parentId, path) :: iterStack =>
          .ok (.inl { s with iter, parentId, path, iterStack })
      | [] => .ok (.inr s.account)

/-- Before the first round. -/
def start (accountId : String) (namePrefix : Option String) (mailboxState : String)
    (result : List MailboxObject) : Walk where
  iter := result
  parentId := none
  path := namePrefix.toList
  iterStack := []
  account :=
    { accountId, namePrefix, mailboxState, mailboxNames := ∅, mailboxData := ∅, modseq := none }

variable {result : List MailboxObject}

/-! ## The measure -/

/-- The rounds that one entry can cost, with room for so many levels on the stack: a round for
itself, one to come back, and those of a whole listing on the next level. -/
def weight (result : List MailboxObject) : ℕ → ℕ
  | 0 => 1
  | room + 1 => 2 + result.length * weight result room

theorem weight_pos (result : List MailboxObject) (room : ℕ) : 0 < weight result room := by
  cases room with
  | zero => exact Nat.one_pos
  | succ room =>
      rw [weight]
      omega

/-- The rounds for the iterators on the stack, and for coming back to them. -/
def stacked (result : List MailboxObject) :
    List (List MailboxObject × Option String × List String) → ℕ
  | [] => 0
  | frame :: iterStack =>
      1 + frame.1.length * weight result (100 - iterStack.length) + stacked result iterStack

def measure (result : List MailboxObject) (s : Walk) : ℕ :=
  s.iter.length * weight result (100 - s.iterStack.length) + stacked result s.iterStack

theorem measure_start (accountId : String) (namePrefix : Option String) (mailboxState : String)
    (result : List MailboxObject) :
    measure result (start accountId namePrefix mailboxState result) =
      result.length * weight result 100 := by
  rw [measure, start, stacked, List.length_nil, Nat.sub_zero, Nat.add_zero]

theorem decreases_step (result : List MailboxObject) :
    Decreases (step result) (measure result) := by
  rintro ⟨iter, parentId, path, iterStack, account⟩ s' h
  have hpos := weight_pos result (100 - iterStack.length)
  cases iter with
  | nil =>
      cases iterStack with
      | nil => cases h
      | cons frame iterStack =>
          obtain ⟨iter, parentId', path'⟩ := frame
          obtain rfl := Sum.inl.inj (Except.ok.inj h)
          simp only [measure, stacked, List.length_nil]
          omega
  | cons mailbox iter =>
      have hcost : measure result ⟨mailbox :: iter, parentId, path, iterStack, account⟩ =
          iter.length * weight result (100 - iterStack.length) +
            weight result (100 - iterStack.length) + stacked result iterStack := by
        rw [measure, List.length_cons, Nat.succ_mul]
      rw [hcost]
      simp only [step] at h
      split at h
      · split at h
        · cases h
        · split at h
          · -- the entry pays for a whole listing with one level less, and for the way back
            rename_i hroom
            obtain rfl := Sum.inl.inj (Except.ok.inj h)
            have hlevel : 100 - iterStack.length = (100 - (iterStack.length + 1)) + 1 := by omega
            have hweight : weight result (100 - iterStack.length) =
                2 + result.length * weight result (100 - (iterStack.length + 1)) := by
              rw [hlevel, weight]
            simp only [measure, stacked, List.length_cons]
            omega
          · obtain rfl := Sum.inl.inj (Except.ok.inj h)
            simp only [measure]
            omega
      · obtain rfl := Sum.inl.inj (Except.ok.inj h)
        simp only [measure]
        omega

/-! ## The loop and the recursion -/

/-- No account is the error for a mailbox without an id. -/
def orNull {α : Type} (found : Option α) : Except String α := found.elim (.error nullMailboxId) .ok

theorem orNull_bind {α β : Type} (found : Option α) (f : α → Option β) :
    orNull (found >>= f) = orNull found >>= fun a ↦ orNull (f a) := by
  cases found with
  | none => rfl
  | some a => rfl

/-- What `buildTree` does below an entry, with room for so many levels. -/
def below (result : List MailboxObject) :
    ℕ → Option (Option String → List String → Account → Option Account)
  | 0 => none
  | room + 1 => some (buildTree result room)

/-- The account with an entry. -/
def entered (result : List MailboxObject) (path : List String) (account : Account)
    (mailbox : MailboxObject) (mailboxId : String) : Account :=
  account.enter mailbox mailboxId (path ++ [pathItem account.namePrefix mailbox])
    (result.any fun child ↦ child.parentId = mailbox.id)

/-- What `buildTree` does with one entry. -/
def visit (result : List MailboxObject) (room : ℕ) (parentId : Option String) (path : List String)
    (account : Account) (mailbox : MailboxObject) : Option Account :=
  if mailbox.parentId = parentId then do
    let mailboxId ← mailbox.id
    let account' := entered result path account mailbox mailboxId
    match below result room with
    | some below =>
        if result.any fun child ↦ child.parentId = mailbox.id then
          below mailbox.id (path ++ [pathItem account.namePrefix mailbox]) account'
        else account'
    | none => account'
  else account

theorem buildTree_eq_foldlM (room : ℕ) (parentId : Option String) (path : List String)
    (account : Account) : buildTree result room parentId path account =
      result.foldlM (visit result room parentId path) account := by
  cases room with
  | zero => rfl
  | succ room => rfl

/-- The levels below are walked as they should be. -/
def LeadsBelow (result : List MailboxObject) (room : ℕ)
    (iterStack : List (List MailboxObject × Option String × List String)) : Prop :=
  ∀ deeper ∈ below result room, ∀ parentId path frame account,
    Leads (step result) ⟨result, parentId, path, frame :: iterStack, account⟩
      (mk [] parentId path (frame :: iterStack)) (orNull (deeper parentId path account))

variable {room : ℕ} {iterStack : List (List MailboxObject × Option String × List String)}

/-- One entry. -/
theorem leads_visit (hroom : iterStack.length + room = 100)
    (hbelow : LeadsBelow result room iterStack)
    (mailbox : MailboxObject) (iter : List MailboxObject) (parentId : Option String)
    (path : List String) (account : Account) :
    Leads (step result) ⟨mailbox :: iter, parentId, path, iterStack, account⟩
      (mk iter parentId path iterStack)
      (orNull (visit result room parentId path account mailbox)) := by
  rw [visit]
  by_cases hparent : mailbox.parentId = parentId
  · rw [if_pos hparent]
    cases hid : mailbox.id with
    | none =>
        refine leads_error ?_
        simp only [step, if_pos hparent, hid]
    | some mailboxId =>
        have hround : step result ⟨mailbox :: iter, parentId, path, iterStack, account⟩ =
            if (result.any fun child ↦ child.parentId = mailbox.id) = true ∧
                iterStack.length < 100 then
              .ok (.inl ⟨result, mailbox.id, path ++ [pathItem account.namePrefix mailbox],
                (iter, parentId, path) :: iterStack,
                entered result path account mailbox mailboxId⟩)
            else .ok (.inl ⟨iter, parentId, path, iterStack,
              entered result path account mailbox mailboxId⟩) := by
          simp only [step, if_pos hparent, hid, entered]
        -- an entry without a level below
        have hleaf (hno : ¬ ((result.any fun child ↦ child.parentId = mailbox.id) = true ∧
            iterStack.length < 100)) :
            Leads (step result) ⟨mailbox :: iter, parentId, path, iterStack, account⟩
              (mk iter parentId path iterStack)
              (.ok (entered result path account mailbox mailboxId)) :=
          Leads.after (leads_ok _ _) (hround.trans (if_neg hno))
        cases room with
        | zero => exact hleaf fun h ↦ by omega
        | succ room =>
            by_cases hchildren : (result.any fun child ↦ child.parentId = mailbox.id) = true
            · have hspace : iterStack.length < 100 := by omega
              have hdeeper := hbelow (buildTree result room) rfl mailbox.id
                (path ++ [pathItem account.namePrefix mailbox]) (iter, parentId, path)
                (entered result path account mailbox mailboxId)
              have hback : ∀ account', Leads (step result)
                  (mk [] mailbox.id (path ++ [pathItem account.namePrefix mailbox])
                    ((iter, parentId, path) :: iterStack) account')
                  (mk iter parentId path iterStack) (pure account') :=
                fun account' ↦ Leads.after (leads_ok _ account') rfl
              have hlevel := (hdeeper.bind hback).after (hround.trans (if_pos ⟨hchildren, hspace⟩))
              rw [bind_pure] at hlevel
              rw [hid] at hchildren hlevel
              show Leads _ _ _ (orNull (if _ then _ else _))
              rw [if_pos hchildren]
              exact hlevel
            · have hno := hleaf fun h ↦ hchildren h.1
              rw [hid] at hchildren
              show Leads _ _ _ (orNull (if _ then _ else _))
              rw [if_neg hchildren]
              exact hno
  · rw [if_neg hparent]
    refine Leads.after (leads_ok _ account) ?_
    simp only [step, if_neg hparent]

/-- What is left of an iterator, by induction on the entries. -/
theorem leads_foldlM (hroom : iterStack.length + room = 100)
    (hbelow : LeadsBelow result room iterStack) (iter : List MailboxObject)
    (parentId : Option String) (path : List String) (account : Account) :
    Leads (step result) ⟨iter, parentId, path, iterStack, account⟩ (mk [] parentId path iterStack)
      (orNull (iter.foldlM (visit result room parentId path) account)) := by
  induction iter generalizing account with
  | nil => exact leads_ok _ account
  | cons mailbox iter ih =>
      rw [List.foldlM_cons, orNull_bind]
      exact (leads_visit hroom hbelow mailbox iter parentId path account).bind ih

/-- By induction on the room. -/
theorem leadsBelow (result : List MailboxObject) (hroom : iterStack.length + room = 100) :
    LeadsBelow result room iterStack := by
  induction room generalizing iterStack with
  | zero => exact nofun
  | succ room ih =>
      intro deeper hdeeper parentId path frame account
      obtain rfl := Option.some.inj hdeeper
      have hroom' : (frame :: iterStack).length + room = 100 := by
        rw [List.length_cons]
        omega
      rw [buildTree_eq_foldlM]
      exact leads_foldlM hroom' (ih hroom') result parentId path account

/-- **The walk ends**, whatever the listing, and returns the account of the recursion. -/
theorem walk_eq (accountId : String) (namePrefix : Option String) (mailboxState : String)
    (result : List MailboxObject) {fuel : ℕ} (hfuel : result.length * weight result 100 < fuel) :
    run (step result) fuel (start accountId namePrefix mailboxState result) =
      (orNull (Account.ofListing accountId namePrefix mailboxState result)).map some := by
  rw [← measure_start accountId namePrefix mailboxState result] at hfuel
  have hroom : ([] : List (List MailboxObject × Option String × List String)).length + 100 = 100 :=
    Nat.zero_add 100
  have hleads := leads_foldlM hroom (leadsBelow result hroom) result none namePrefix.toList
    (start accountId namePrefix mailboxState result).account
  rw [← buildTree_eq_foldlM] at hleads
  exact hleads.run_eq (decreases_step result) (fun _ ↦ rfl) hfuel

/-- **The loop terminates** on every listing, with ids that repeat, parents that do not exist and
cycles of parents: it returns an account, or the error for a mailbox without an id. -/
theorem walk_terminates (accountId : String) (namePrefix : Option String) (mailboxState : String)
    (result : List MailboxObject) :
    ∃ rounds, ∀ fuel, rounds < fuel →
      match Account.ofListing accountId namePrefix mailboxState result with
      | some account =>
          run (step result) fuel (start accountId namePrefix mailboxState result) =
            .ok (some account)
      | none =>
          run (step result) fuel (start accountId namePrefix mailboxState result) =
            .error nullMailboxId := by
  refine ⟨result.length * weight result 100, fun fuel hfuel ↦ ?_⟩
  have heq := walk_eq accountId namePrefix mailboxState result hfuel
  cases hfound : Account.ofListing accountId namePrefix mailboxState result with
  | some account =>
      rw [hfound] at heq
      exact heq
  | none =>
      rw [hfound] at heq
      exact heq

end Walk

end ImapToJmap
