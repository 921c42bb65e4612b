import ImapToJmap.ManageSieve.Replies
import ImapToJmap.Parser.SequenceSet
import ImapToJmap.Run.Refinement

/-!
# Sieve scripts

The handlers of `managesieve/commands` that are about scripts.  A client names a script, the JMAP
server knows it by its id, and `get_script_id` asks for the ids with a filter on names and takes the
last one.  `Store` is what the server holds and the handlers see, and `Server` what is documented of
its calls; `Named` is what the client takes it for, where a script is its name.

The filter of JMAP is for names that contain a text.  `requests_iff`: whatever the order in which
the server lists results, the answers to any requests, between which other clients may change the
scripts, and the scripts that they are about are those of `Named`, if and only if no request is for
a name that the filter also finds in the name of another script.
-/

namespace ImapToJmap.ManageSieve.Scripts

open Replies

/-! ## The JMAP server -/

structure Script where
  id : String
  name : String
  content : Bytes
deriving DecidableEq

/-- The scripts of an account and the id of the active one. -/
structure Store where
  scripts : List Script
  active : Option String
  ids_nodup : (scripts.map Script.id).Nodup
  names_nodup : (scripts.map Script.name).Nodup
  active_mem : ∀ id ∈ active, id ∈ scripts.map Script.id

/-- `Filter::name`: whether a script with the second name is found by the first. -/
structure NameFilter where
  found : String → String → Bool
  found_self : ∀ name, found name name = true

/-- The calls of the handlers. -/
inductive Call where
  | query
  | create
  | destroy
  | rename
  | activate
  | deactivate
  | get
  | download
  | list
  | validate

/-- The calls that fail for a reason other than the scripts, with their errors. -/
abbrev Outage := Call → Option JmapError

/-- What a handler returns, or a response instead. -/
abbrev Outcome (α : Type) := Except Replies.StatusResponse α

/-- The result of a call, or the response to its error. -/
def attempt {α : Type} (stops : Outage) (call : Call) (x : Except JmapError α) :
    Outcome α :=
  match stops call with
  | some e => .error e.intoStatusResponse
  | none => x.mapError JmapError.intoStatusResponse

theorem eq_of_id_eq {s : Store} {x y : Script} (hx : x ∈ s.scripts) (hy : y ∈ s.scripts) :
    x.id = y.id ↔ x = y :=
  ⟨List.inj_on_of_nodup_map s.ids_nodup hx hy, congrArg Script.id⟩

theorem eq_of_name_eq {s : Store} {x y : Script} (hx : x ∈ s.scripts) (hy : y ∈ s.scripts) :
    x.name = y.name ↔ x = y :=
  ⟨List.inj_on_of_nodup_map s.names_nodup hx hy, congrArg Script.name⟩

namespace Store

variable (s : Store)

def ids : List String := s.scripts.map Script.id

def names : List String := s.scripts.map Script.name

/-- The script with an id. -/
def find? (id : String) : Option Script := s.scripts.find? fun x ↦ x.id = id

end Store

/-- The server, by what is documented of its calls.  The order of results and the ids of new scripts
are up to it. -/
structure Server where
  order : List Script → List Script
  order_perm : ∀ scripts, (order scripts).Perm scripts
  /-- `sieve_script_create` -/
  create : Store → String → Bytes → Except JmapError Store
  create_of_mem : ∀ s name content, name ∈ s.names →
    create s name content = .error (.set .alreadyExists none)
  create_of_notMem : ∀ s name content, name ∉ s.names → ∃ s' id, create s name content = .ok s' ∧
    s'.scripts = s.scripts ++ [⟨id, name, content⟩] ∧ s'.active = s.active
  /-- `sieve_script_destroy` -/
  destroy : Store → String → Except JmapError Store
  destroy_of_active : ∀ s id, id ∈ s.ids → s.active = some id →
    destroy s id = .error (.set .scriptIsActive none)
  destroy_of_not_active : ∀ s id, id ∈ s.ids → s.active ≠ some id → ∃ s', destroy s id = .ok s' ∧
    s'.scripts = s.scripts.filter (fun x ↦ x.id ≠ id) ∧ s'.active = s.active
  /-- `sieve_script_rename` -/
  rename : Store → String → String → Except JmapError Store
  rename_of_taken : ∀ s id name, id ∈ s.ids → (∃ x ∈ s.scripts, x.id ≠ id ∧ x.name = name) →
    rename s id name = .error (.set .alreadyExists none)
  rename_of_free : ∀ s id name, id ∈ s.ids → (¬ ∃ x ∈ s.scripts, x.id ≠ id ∧ x.name = name) →
    ∃ s', rename s id name = .ok s' ∧
      s'.scripts = s.scripts.map (fun x ↦ if x.id = id then { x with name := name } else x) ∧
      s'.active = s.active
  /-- `sieve_script_activate` -/
  activate : Store → String → Store
  activate_eq : ∀ s id, id ∈ s.ids →
    (activate s id).scripts = s.scripts ∧ (activate s id).active = some id
  /-- `sieve_script_deactivate` -/
  deactivate : Store → Store
  deactivate_eq : ∀ s, (deactivate s).scripts = s.scripts ∧ (deactivate s).active = none
  /-- `sieve_script_get`, for the blob of a script and what can be downloaded from there. -/
  get : Store → String → Option (Option Bytes)
  get_eq : ∀ s id, get s id = (s.find? id).map fun x ↦ some x.content

/-- `SieveScript/query` with a filter on the name. -/
def Store.query (s : Store) (filter : NameFilter) (server : Server) (name : String) :
    List String :=
  (server.order (s.scripts.filter fun x ↦ filter.found name x.name)).map Script.id

/-! ## The handlers -/

section

variable (filter : NameFilter) (server : Server) (stops : Outage) (s : Store)

/-- The `ok_or_else` of `get_script_id`. -/
def okOrNoScript {α : Type} : Option α → Outcome α
  | some a => .ok a
  | none => .error
      ((Replies.StatusResponse.no "There is no script by that name").withCode .nonExistent)

/-- `Session::get_script_id` -/
def getScriptId (name : String) : Outcome String := do
  let ids ← attempt stops .query (.ok (s.query filter server name))
  okOrNoScript ids.getLast?

/-- `handle_putscript` -/
def handlePutscript (name : String) (script : Bytes) : Outcome (Replies.Reply × Store) := do
  let s' ← attempt stops .create (server.create s name script)
  return (.status (.ok "Success."), s')

/-- `handle_deletescript` -/
def handleDeletescript (name : String) : Outcome (Replies.Reply × Store) := do
  let id ← getScriptId filter server stops s name
  let s' ← attempt stops .destroy (server.destroy s id)
  return (.status (.ok "Deleted."), s')

/-- `handle_renamescript` -/
def handleRenamescript (name newName : String) : Outcome (Replies.Reply × Store) := do
  let id ← getScriptId filter server stops s name
  let s' ← attempt stops .rename (server.rename s id newName)
  return (.status (.ok "Success."), s')

/-- `handle_setactive` -/
def handleSetactive (name : String) : Outcome (Replies.Reply × Store) :=
  if name ≠ "" then do
    let id ← getScriptId filter server stops s name
    let s' ← attempt stops .activate (.ok (server.activate s id))
    return (.status (.ok "Success"), s')
  else do
    let s' ← attempt stops .deactivate (.ok (server.deactivate s))
    return (.status (.ok "Success"), s')

/-- `handle_getscript` -/
def handleGetscript (name : String) : Outcome (Replies.Reply × Store) := do
  let id ← getScriptId filter server stops s name
  let script ← attempt stops .get (.ok (server.get s id))
  match script with
  | none => .error ((Replies.StatusResponse.no "Script not found").withCode .nonExistent)
  | some none =>
      .error ((Replies.StatusResponse.no "BlobId not included in response").withCode
        .nonExistent)
  | some (some blob) => do
      let content ← attempt stops .download (.ok blob)
      return (.script content, s)

/-- `handle_listscripts` -/
def handleListscripts : Outcome (Replies.Reply × Store) := do
  let scripts ← attempt stops .list (.ok s.scripts)
  return (.scripts (scripts.map fun x ↦ (some x.name, s.active = some x.id)), s)

end

/-- `handle_checkscript` -/
def handleCheckscript (stops : Outage) : Outcome Replies.Reply := do
  attempt stops .validate (.ok ())
  return .status (.ok "Script is valid.")

/-- `handle_havespace` -/
def handleHavespace : Replies.Reply := .status (.ok "")

/-- `handle_noop` -/
def handleNoop (tag : Option String) : Replies.Reply :=
  .status (match tag with
    | some tag => (Replies.StatusResponse.ok "Done").withCode (.tag tag)
    | none => .ok "Done")

/-- A request whose parameters are there. -/
inductive Action where
  | listScripts
  | putScript (name : String) (script : Bytes)
  | setActive (name : String)
  | getScript (name : String)
  | deleteScript (name : String)
  | renameScript (name newName : String)
  | checkScript (script : Bytes)
  | haveSpace (name : String) (size : ℕ)
  | noop (tag : Option String)

namespace Action

/-- A parameter of a handler that has to be a string. -/
def stringParam (token : Option Token) (message : String) : Outcome String :=
  match token.bind Token.unwrapString with
  | some s => .ok s
  | none => .error (.no message)

/-- A parameter that may be any bytes. -/
def bytesParam (token : Option Token) (message : String) : Outcome Bytes :=
  match token with
  | some token => .ok token.unwrapBytes
  | none => .error (.no message)

/-- The beginnings of the handlers of commands on scripts, and of NOOP. -/
def ofRequest (request : Request Command) : Option (Outcome Action) :=
  match request.command with
  | .listScripts => some (.ok .listScripts)
  | .putScript => some do
      let name ← stringParam request.tokens[0]? "Expected script name as a parameter."
      let script ← bytesParam request.tokens[1]? "Expected script as a parameter."
      return .putScript name script
  | .setActive => some do
      let name ← stringParam request.tokens[0]? "Expected script name as a parameter."
      return .setActive name
  | .getScript => some do
      let name ← stringParam request.tokens[0]? "Expected script name as a parameter."
      return .getScript name
  | .deleteScript => some do
      let name ← stringParam request.tokens[0]? "Expected script name as a parameter."
      return .deleteScript name
  | .renameScript => some do
      let name ← stringParam request.tokens[0]? "Expected old script name as a parameter."
      let newName ← stringParam request.tokens[1]? "Expected new script name as a parameter."
      return .renameScript name newName
  | .checkScript => some do
      let script ← bytesParam request.tokens[0]? "Expected script as a parameter."
      return .checkScript script
  | .haveSpace => some do
      let name ← stringParam request.tokens[0]? "Expected script name as a parameter."
      let size ← stringParam request.tokens[1]? "Expected script size as a parameter."
      match parseNumber 64 (asBytes size) with
      | some size => return .haveSpace name size
      | none => .error (.no "Invalid size parameter.")
  | .noop => some (.ok (.noop (request.tokens[0]?.bind Token.unwrapString)))
  | _ => none

/-- The name that is looked up for a request. -/
def lookedUp : Action → Option String
  | setActive name => if name ≠ "" then some name else none
  | getScript name | deleteScript name | renameScript name _ => some name
  | _ => none

/-- The handler of a request. -/
def handle (filter : NameFilter) (server : Server) (stops : Outage) (s : Store) :
    Action → Outcome (Replies.Reply × Store)
  | listScripts => handleListscripts stops s
  | putScript name script => handlePutscript server stops s name script
  | setActive name => handleSetactive filter server stops s name
  | getScript name => handleGetscript filter server stops s name
  | deleteScript name => handleDeletescript filter server stops s name
  | renameScript name newName => handleRenamescript filter server stops s name newName
  | checkScript _ => (handleCheckscript stops).map fun reply ↦ (reply, s)
  | haveSpace _ _ => .ok (handleHavespace, s)
  | noop tag => .ok (handleNoop tag, s)

end Action

/-! ## What the client means -/

/-- Scripts by their names, with their contents, and the name of the active one. -/
@[ext] structure Named where
  contents : List (String × Bytes)
  active : Option String

namespace Named

variable (stops : Outage) (l : Named)

def names : List String := l.contents.map Prod.fst

/-- The content of a script, which has to be there. -/
def known (name : String) : Outcome Bytes := do
  attempt stops .query (.ok ())
  okOrNoScript (l.contents.lookup name)

/-- A new script; one that is there is not replaced. -/
def put (name : String) (content : Bytes) : Except JmapError Named :=
  if name ∈ l.names then .error (.set .alreadyExists none)
  else .ok { l with contents := l.contents ++ [(name, content)] }

def delete (name : String) : Except JmapError Named :=
  if l.active = some name then .error (.set .scriptIsActive none)
  else .ok { l with contents := l.contents.filter fun e ↦ e.1 ≠ name }

/-- The active script stays so under its new name. -/
def rename (name newName : String) : Except JmapError Named :=
  if newName ≠ name ∧ newName ∈ l.names then .error (.set .alreadyExists none)
  else .ok {
    contents := l.contents.map fun e ↦ if e.1 = name then (newName, e.2) else e
    active := if l.active = some name then some newName else l.active }

/-- What a request is to come to. -/
def perform : Action → Outcome (Replies.Reply × Named)
  | .listScripts => do
      let contents ← attempt stops .list (.ok l.contents)
      return (.scripts (contents.map fun e ↦ (some e.1, l.active = some e.1)), l)
  | .putScript name script => do
      let l' ← attempt stops .create (l.put name script)
      return (.status (.ok "Success."), l')
  | .setActive name =>
      if name ≠ "" then do
        let _ ← l.known stops name
        let l' ← attempt stops .activate (.ok { l with active := some name })
        return (.status (.ok "Success"), l')
      else do
        let l' ← attempt stops .deactivate (.ok { l with active := none })
        return (.status (.ok "Success"), l')
  | .getScript name => do
      let content ← l.known stops name
      attempt stops .get (.ok ())
      let content ← attempt stops .download (.ok content)
      return (.script content, l)
  | .deleteScript name => do
      let _ ← l.known stops name
      let l' ← attempt stops .destroy (l.delete name)
      return (.status (.ok "Deleted."), l')
  | .renameScript name newName => do
      let _ ← l.known stops name
      let l' ← attempt stops .rename (l.rename name newName)
      return (.status (.ok "Success."), l')
  | .checkScript _ => (handleCheckscript stops).map fun reply ↦ (reply, l)
  | .haveSpace _ _ => .ok (handleHavespace, l)
  | .noop tag => .ok (handleNoop tag, l)

end Named

/-- What the scripts of the server are to the client. -/
def Store.named (s : Store) : Named where
  contents := s.scripts.map fun x ↦ (x.name, x.content)
  active := s.active.bind fun id ↦ (s.find? id).map Script.name

/-! ## Runs -/

/-- A request, with the calls that fail, or what other clients make of the scripts. -/
inductive Step where
  | request (request : Request Command) (stops : Outage)
  | other (store : Store)

/-- The reply, and what is there behind it. -/
def conclude {σ : Type} (s : σ) : Outcome (Replies.Reply × σ) → σ × Replies.Reply
  | .ok (reply, s') => (s', reply)
  | .error response => (s, .status response)

/-- The script that the calls of a request are about. -/
def Action.target (a : Action) (filter : NameFilter) (server : Server) (stops : Outage)
    (s : Store) : Option String :=
  a.lookedUp.bind fun name ↦ match getScriptId filter server stops s name with
    | .ok id => (s.find? id).map Script.name
    | .error _ => none

/-- The script that a request means, if it is there. -/
def Action.meant (a : Action) (stops : Outage) (l : Named) : Option String :=
  a.lookedUp.bind fun name ↦ match l.known stops name with
    | .ok _ => some name
    | .error _ => none

/-- A step of the code: the reply to a request, and the script it is about. -/
def serve (filter : NameFilter) (server : Server) (s : Store) :
    Step → Store × Option (Replies.Reply × Option String)
  | .other s' => (s', none)
  | .request request stops =>
    match Action.ofRequest request with
    | none => (s, none)
    | some (.error response) => (s, some (.status response, none))
    | some (.ok a) =>
        let (s', reply) := conclude s (a.handle filter server stops s)
        (s', some (reply, a.target filter server stops s))

/-- A step as the client means it. -/
def Named.serve (l : Named) : Step → Named × Option (Replies.Reply × Option String)
  | .other s' => (s'.named, none)
  | .request request stops =>
    match Action.ofRequest request with
    | none => (l, none)
    | some (.error response) => (l, some (.status response, none))
    | some (.ok a) =>
        let (l', reply) := conclude l (l.perform stops a)
        (l', some (reply, a.meant stops l))

/-- The name in a request is not found in that of another script. -/
def Unambiguous (filter : NameFilter) (l : Named) : Step → Prop
  | .other _ => True
  | .request request stops => ∀ a name, Action.ofRequest request = some (.ok a) →
      a.lookedUp = some name → (stops .query).isNone →
      ∀ name' ∈ l.names, filter.found name name' → name' = name

/-! ## The calls -/

theorem attempt_of_some {α : Type} {stops : Outage} {call : Call} {e : JmapError}
    (h : stops call = some e) (x : Except JmapError α) :
    attempt stops call x = .error e.intoStatusResponse := by
  rw [attempt, h]

theorem attempt_of_none {α : Type} {stops : Outage} {call : Call} (h : stops call = none)
    (x : Except JmapError α) :
    attempt stops call x = x.mapError JmapError.intoStatusResponse := by
  rw [attempt, h]

theorem ok_bind {α β : Type} (a : α) (f : α → Outcome β) : (Except.ok a : Outcome α) >>= f = f a :=
  rfl

theorem attempt_ok_bind {α β : Type} {stops : Outage} {call : Call} (h : stops call = none) (a : α)
    (f : α → Outcome β) : attempt stops call (.ok a) >>= f = f a := by
  rw [attempt_of_none h]
  rfl

/-- A call whose result is the new state. -/
theorem attempt_map {σ τ : Type} {f : σ → τ} {stops : Outage} {call : Call}
    {reply : Replies.Reply} {x : Except JmapError σ} {y : Except JmapError τ} (h : x.map f = y) :
    (do let s ← attempt stops call x; return (reply, s) : Outcome (Replies.Reply × σ)).map
        (Prod.map id f) =
      do let t ← attempt stops call y; return (reply, t) := by
  subst h
  cases hcall : stops call with
  | some e => rw [attempt_of_some hcall, attempt_of_some hcall]; rfl
  | none =>
      rw [attempt_of_none hcall, attempt_of_none hcall]
      cases x <;> rfl

namespace Store

variable {s t : Store} {x : Script}

theorem find?_id (hx : x ∈ s.scripts) : s.find? x.id = some x := by
  cases h : s.find? x.id with
  | none => exact absurd (List.find?_eq_none.mp h x hx) (by simp)
  | some y =>
      have hid : y.id = x.id := by simpa using List.find?_some h
      rw [(eq_of_id_eq (List.mem_of_find?_eq_some h) hx).mp hid]

theorem exists_of_active {id : String} (h : s.active = some id) : ∃ y ∈ s.scripts, y.id = id :=
  List.mem_map.mp (s.active_mem id h)

theorem named_active_of_mem (hx : x ∈ s.scripts) (h : s.active = some x.id) :
    s.named.active = some x.name := by
  rw [named, h, Option.bind_some, find?_id hx]
  rfl

theorem named_active_iff (hx : x ∈ s.scripts) :
    s.named.active = some x.name ↔ s.active = some x.id := by
  refine ⟨fun h ↦ ?_, named_active_of_mem hx⟩
  cases hactive : s.active with
  | none =>
      rw [named, hactive] at h
      cases h
  | some id =>
      obtain ⟨y, hy, rfl⟩ := exists_of_active hactive
      rw [named_active_of_mem hy hactive] at h
      rw [(eq_of_name_eq hy hx).mp (Option.some.inj h)]

/-- The active script is the same if it keeps its name. -/
theorem named_active_congr (h : t.active = s.active) (hmem : ∀ y ∈ s.scripts,
      s.active = some y.id → ∃ y' ∈ t.scripts, y'.id = y.id ∧ y'.name = y.name) :
    t.named.active = s.named.active := by
  cases hactive : s.active with
  | none => rw [named, named, h, hactive, Option.bind_none, Option.bind_none]
  | some id =>
      obtain ⟨y, hy, rfl⟩ := exists_of_active hactive
      obtain ⟨y', hy', hid, hname⟩ := hmem y hy hactive
      rw [named_active_of_mem hy hactive,
        named_active_of_mem hy' (by rw [h, hactive, hid]), hname]

theorem mem_names_named {name : String} :
    name ∈ s.named.names ↔ ∃ y ∈ s.scripts, y.name = name := by
  rw [Named.names, named, List.map_map, List.mem_map]
  rfl

theorem names_named : s.named.names = s.names := by
  rw [Named.names, named, List.map_map]
  rfl

theorem named_create (server : Server) (name : String) (content : Bytes) :
    (server.create s name content).map named = s.named.put name content := by
  unfold Named.put
  rw [names_named]
  by_cases hname : name ∈ s.names
  · rw [server.create_of_mem s name content hname, if_pos hname]
    rfl
  · obtain ⟨t, id, hcreate, hscripts, hactive⟩ := server.create_of_notMem s name content hname
    rw [hcreate, if_neg hname]
    refine congrArg Except.ok (Named.ext ?_ ?_)
    · rw [named, hscripts]
      exact List.map_append
    · refine named_active_congr hactive fun y hy _ ↦ ⟨y, ?_, rfl, rfl⟩
      rw [hscripts]
      exact List.mem_append_left _ hy

theorem named_destroy (server : Server) (hx : x ∈ s.scripts) :
    (server.destroy s x.id).map named = s.named.delete x.name := by
  have hid : x.id ∈ s.ids := List.mem_map_of_mem hx
  unfold Named.delete
  by_cases hactive : s.active = some x.id
  · rw [server.destroy_of_active s x.id hid hactive,
      if_pos ((named_active_iff hx).mpr hactive)]
    rfl
  · obtain ⟨t, hdestroy, hscripts, hsame⟩ := server.destroy_of_not_active s x.id hid hactive
    rw [hdestroy, if_neg fun h ↦ hactive ((named_active_iff hx).mp h)]
    refine congrArg Except.ok (Named.ext ?_ ?_)
    · simp only [named, hscripts, List.filter_map]
      refine congrArg _ (List.filter_congr fun y hy ↦ ?_)
      simp [eq_of_id_eq hy hx, eq_of_name_eq hy hx]
    · refine named_active_congr hsame fun y hy hy' ↦ ⟨y, ?_, rfl, rfl⟩
      have hne : y.id ≠ x.id := fun heq ↦ hactive (heq ▸ hy')
      rw [hscripts]
      exact List.mem_filter.mpr ⟨hy, by simpa using hne⟩

/-- The active script of a store in which one has a new name. -/
theorem named_active_renamed (hx : x ∈ s.scripts) {newName : String} (h : t.active = s.active)
    (hscripts : t.scripts =
      s.scripts.map fun y ↦ if y.id = x.id then { y with name := newName } else y) :
    t.named.active =
      if s.named.active = some x.name then some newName else s.named.active := by
  have hmem : ∀ y ∈ s.scripts,
      (if y.id = x.id then { y with name := newName } else y) ∈ t.scripts :=
    fun y hy ↦ hscripts ▸ List.mem_map_of_mem hy
  by_cases hactive : s.active = some x.id
  · have hx' := hmem x hx
    rw [if_pos rfl] at hx'
    rw [if_pos (named_active_of_mem hx hactive)]
    exact named_active_of_mem hx' (h.trans hactive)
  · rw [if_neg fun h' ↦ hactive ((named_active_iff hx).mp h')]
    refine named_active_congr h fun y hy hy' ↦ ⟨y, ?_, rfl, rfl⟩
    have hne : y.id ≠ x.id := fun heq ↦ hactive (heq ▸ hy')
    have hy' := hmem y hy
    rwa [if_neg hne] at hy'

theorem named_rename (server : Server) (hx : x ∈ s.scripts) (newName : String) :
    (server.rename s x.id newName).map named = s.named.rename x.name newName := by
  have hid : x.id ∈ s.ids := List.mem_map_of_mem hx
  have htaken : (∃ y ∈ s.scripts, y.id ≠ x.id ∧ y.name = newName) ↔
      newName ≠ x.name ∧ newName ∈ s.named.names := by
    rw [mem_names_named]
    constructor
    · rintro ⟨y, hy, hne, rfl⟩
      refine ⟨fun h ↦ hne ?_, y, hy, rfl⟩
      rw [(eq_of_name_eq hy hx).mp h]
    · rintro ⟨hne, y, hy, rfl⟩
      refine ⟨y, hy, fun h ↦ hne ?_, rfl⟩
      rw [(eq_of_id_eq hy hx).mp h]
  unfold Named.rename
  by_cases h : ∃ y ∈ s.scripts, y.id ≠ x.id ∧ y.name = newName
  · rw [server.rename_of_taken s x.id newName hid h, if_pos (htaken.mp h)]
    rfl
  · obtain ⟨t, hrename, hscripts, hsame⟩ := server.rename_of_free s x.id newName hid h
    rw [hrename, if_neg fun h' ↦ h (htaken.mpr h')]
    refine congrArg Except.ok (Named.ext ?_ ?_)
    · simp only [named, hscripts, List.map_map]
      refine List.map_congr_left fun y hy ↦ ?_
      by_cases heq : y = x
      · simp [heq]
      · simp [eq_of_id_eq hy hx, eq_of_name_eq hy hx, heq]
    · exact named_active_renamed hx hsame hscripts

theorem named_activate (server : Server) (hx : x ∈ s.scripts) :
    (server.activate s x.id).named = { s.named with active := some x.name } := by
  obtain ⟨hscripts, hactive⟩ := server.activate_eq s x.id (List.mem_map_of_mem hx)
  refine Named.ext ?_ (named_active_of_mem (hscripts ▸ hx) hactive)
  rw [named, hscripts]
  rfl

theorem named_deactivate (server : Server) :
    (server.deactivate s).named = { s.named with active := none } := by
  obtain ⟨hscripts, hactive⟩ := server.deactivate_eq s
  rw [named, hscripts, hactive]
  rfl

end Store

/-! ## Looking up a name -/

section

variable {filter : NameFilter} {server : Server} {stops : Outage} {s : Store} {name : String}

/-- The order of the server does not matter for one script. -/
theorem order_filter_eq {p : Script → Bool} {x : Script} (hx : x ∈ s.scripts)
    (hp : ∀ y ∈ s.scripts, p y = true ↔ y = x) :
    server.order (s.scripts.filter p) = [x] := by
  have hnodup : s.scripts.Nodup := List.Nodup.of_map _ s.ids_nodup
  have hperm : (s.scripts.filter p).Perm [x] := by
    refine (List.perm_ext_iff_of_nodup (hnodup.filter _) (List.nodup_singleton x)).mpr fun y ↦ ?_
    rw [List.mem_filter, List.mem_singleton]
    constructor
    · exact fun h ↦ (hp y h.1).mp h.2
    · rintro rfl
      exact ⟨hx, (hp y hx).mpr rfl⟩
  exact List.perm_singleton.mp ((server.order_perm _).trans hperm)

theorem query_eq (h : ∀ name' ∈ s.named.names, filter.found name name' → name' = name) :
    (∃ x ∈ s.scripts, x.name = name ∧ s.query filter server name = [x.id]) ∨
      (∀ x ∈ s.scripts, x.name ≠ name) ∧ s.query filter server name = [] := by
  have hfound : ∀ y ∈ s.scripts, filter.found name y.name = true ↔ y.name = name := by
    intro y hy
    constructor
    · exact h y.name (Store.mem_names_named.mpr ⟨y, hy, rfl⟩)
    · rintro rfl
      exact filter.found_self y.name
  by_cases hname : ∃ x ∈ s.scripts, x.name = name
  · obtain ⟨x, hx, rfl⟩ := hname
    refine .inl ⟨x, hx, rfl, ?_⟩
    rw [Store.query, order_filter_eq hx fun y hy ↦ (hfound y hy).trans (eq_of_name_eq hy hx)]
    rfl
  · have hnone : ∀ x ∈ s.scripts, x.name ≠ name := fun x hx h ↦ hname ⟨x, hx, h⟩
    refine .inr ⟨hnone, ?_⟩
    have hnil : s.scripts.filter (fun y ↦ filter.found name y.name) = [] :=
      List.filter_eq_nil_iff.mpr fun y hy hy' ↦ hnone y hy ((hfound y hy).mp hy')
    rw [Store.query, hnil, List.perm_nil.mp (server.order_perm [])]
    rfl

theorem lookup_named {x : Script} (hx : x ∈ s.scripts) :
    s.named.contents.lookup x.name = some x.content := by
  cases h : s.named.contents.lookup x.name with
  | none =>
      have hmem : (x.name, x.content) ∈ s.named.contents := List.mem_map_of_mem hx
      exact absurd (List.lookup_eq_none_iff.mp h _ hmem) (by simp)
  | some content =>
      obtain ⟨l₁, l₂, heq, -⟩ := List.lookup_eq_some_iff.mp h
      have hmem : (x.name, content) ∈ s.named.contents := heq ▸ by simp
      obtain ⟨y, hy, hpair⟩ := List.mem_map.mp hmem
      obtain ⟨hname, rfl⟩ := Prod.mk.inj hpair
      rw [(eq_of_name_eq hy hx).mp hname]

theorem lookup_named_eq_none (h : ∀ x ∈ s.scripts, x.name ≠ name) :
    s.named.contents.lookup name = none := by
  refine List.lookup_eq_none_iff.mpr fun e he ↦ ?_
  obtain ⟨x, hx, rfl⟩ := List.mem_map.mp he
  simpa using Ne.symm (h x hx)

/-- A name that is not ambiguous leads to its script. -/
theorem resolve (h : (stops .query).isNone →
      ∀ name' ∈ s.named.names, filter.found name name' → name' = name) :
    (∃ response, getScriptId filter server stops s name = .error response ∧
        s.named.known stops name = .error response) ∨
      ∃ x ∈ s.scripts, x.name = name ∧ getScriptId filter server stops s name = .ok x.id ∧
        s.named.known stops name = .ok x.content := by
  unfold getScriptId Named.known
  cases hquery : stops .query with
  | some e =>
      refine .inl ⟨e.intoStatusResponse, ?_, ?_⟩
      · rw [attempt_of_some hquery]
        rfl
      · rw [attempt_of_some hquery]
        rfl
  | none =>
      rw [attempt_of_none hquery, attempt_of_none hquery]
      rcases @query_eq filter server s name (h (by rw [hquery]; rfl)) with
        ⟨x, hx, rfl, hids⟩ | ⟨hnone, hids⟩
      · rw [hids, lookup_named hx]
        exact .inr ⟨x, hx, rfl, rfl, rfl⟩
      · rw [hids, lookup_named_eq_none hnone]
        exact .inl ⟨_, rfl, rfl⟩

end

/-! ## Requests -/

section

variable {filter : NameFilter} {server : Server} {stops : Outage} {s : Store}

/-- A handler that looks up a name and makes one more call. -/
theorem lookUp_map {name : String} {reply : Replies.Reply} {call : Call}
    {f : String → Except JmapError Store} {x : Except JmapError Named}
    (h : (stops .query).isNone →
      ∀ name' ∈ s.named.names, filter.found name name' → name' = name)
    (hf : ∀ y ∈ s.scripts, y.name = name → (f y.id).map Store.named = x) :
    (do
      let id ← getScriptId filter server stops s name
      let s' ← attempt stops call (f id)
      return (reply, s') : Outcome (Replies.Reply × Store)).map (Prod.map id Store.named) =
    do
      let _ ← s.named.known stops name
      let l' ← attempt stops call x
      return (reply, l') := by
  rcases @resolve filter server stops s name h with
    ⟨response, hid, hknown⟩ | ⟨y, hy, hname, hid, hknown⟩
  · rw [hid, hknown]
    rfl
  · rw [hid, hknown]
    exact attempt_map (hf y hy hname)

theorem handleGetscript_map {name : String} (h : (stops .query).isNone →
      ∀ name' ∈ s.named.names, filter.found name name' → name' = name) :
    (handleGetscript filter server stops s name).map (Prod.map id Store.named) =
      s.named.perform stops (.getScript name) := by
  rw [handleGetscript, Named.perform]
  rcases @resolve filter server stops s name h with
    ⟨response, hid, hknown⟩ | ⟨y, hy, -, hid, hknown⟩
  · rw [hid, hknown]
    rfl
  · rw [hid, hknown, ok_bind, ok_bind]
    cases hget : stops .get with
    | some e =>
        rw [attempt_of_some hget, attempt_of_some hget]
        rfl
    | none =>
        rw [attempt_ok_bind hget, attempt_ok_bind hget, server.get_eq, Store.find?_id hy]
        dsimp only [Option.map_some]
        cases attempt stops .download (.ok y.content) <;> rfl

theorem handleListscripts_map :
    (handleListscripts stops s).map (Prod.map id Store.named) =
      s.named.perform stops .listScripts := by
  rw [handleListscripts, Named.perform]
  cases hlist : stops .list with
  | some e =>
      rw [attempt_of_some hlist, attempt_of_some hlist]
      rfl
  | none =>
      rw [attempt_of_none hlist, attempt_of_none hlist]
      have hlisted : s.scripts.map (fun x ↦ (some x.name, decide (s.active = some x.id))) =
          s.named.contents.map fun e ↦ (some e.1, decide (s.named.active = some e.1)) := by
        rw [Store.named, List.map_map]
        refine List.map_congr_left fun x hx ↦ ?_
        exact congrArg _ (decide_eq_decide.mpr (Store.named_active_iff hx).symm)
      exact congrArg (fun list ↦ Except.ok (Replies.Reply.scripts list, s.named)) hlisted

/-- **One request.**  If its name is not ambiguous then it does what is meant. -/
theorem handle_map (a : Action) (h : ∀ name, a.lookedUp = some name → (stops .query).isNone →
      ∀ name' ∈ s.named.names, filter.found name name' → name' = name) :
    (a.handle filter server stops s).map (Prod.map id Store.named) =
      s.named.perform stops a := by
  cases a with
  | listScripts => exact handleListscripts_map
  | putScript name script => exact attempt_map (Store.named_create server name script)
  | setActive name =>
      rw [Action.handle, handleSetactive, Named.perform]
      by_cases hname : name ≠ ""
      · rw [if_pos hname, if_pos hname]
        refine lookUp_map (h name (if_pos hname)) fun y hy hy' ↦ ?_
        rw [← hy']
        exact congrArg Except.ok (Store.named_activate server hy)
      · rw [if_neg hname, if_neg hname]
        exact attempt_map (congrArg Except.ok (Store.named_deactivate server))
  | getScript name => exact handleGetscript_map (h name rfl)
  | deleteScript name =>
      exact lookUp_map (h name rfl) fun y hy hy' ↦ hy' ▸ Store.named_destroy server hy
  | renameScript name newName =>
      exact lookUp_map (h name rfl) fun y hy hy' ↦ hy' ▸ Store.named_rename server hy newName
  | checkScript script =>
      rw [Action.handle, Named.perform]
      cases handleCheckscript stops <;> rfl
  | haveSpace name size => rfl
  | noop tag => rfl

theorem target_eq (a : Action) (h : ∀ name, a.lookedUp = some name → (stops .query).isNone →
      ∀ name' ∈ s.named.names, filter.found name name' → name' = name) :
    a.target filter server stops s = a.meant stops s.named := by
  rw [Action.target, Action.meant]
  cases hname : a.lookedUp with
  | none => rfl
  | some name =>
      rw [Option.bind_some, Option.bind_some]
      rcases @resolve filter server stops s name (h name hname) with
        ⟨response, hid, hknown⟩ | ⟨y, hy, rfl, hid, hknown⟩
      · rw [hid, hknown]
      · rw [hid, hknown]
        dsimp only
        rw [Store.find?_id hy]
        rfl

theorem conclude_map (x : Outcome (Replies.Reply × Store)) :
    conclude s.named (x.map (Prod.map id Store.named)) =
      ((conclude s x).1.named, (conclude s x).2) := by
  cases x <;> rfl

/-- **One step.** -/
theorem serve_eq (i : Step) (h : Unambiguous filter s.named i) :
    s.named.serve i = ((serve filter server s i).1.named, (serve filter server s i).2) := by
  cases i with
  | other s' => rfl
  | request request stops =>
      rw [Named.serve, serve]
      cases hparse : Action.ofRequest request with
      | none => rfl
      | some parsed =>
          cases parsed with
          | error response => rfl
          | ok a =>
              have ha := fun name hname ↦ h a name hparse hname
              dsimp only
              rw [← @handle_map filter server stops s a ha, conclude_map,
                ← @target_eq filter server stops s a ha]

end

/-! ## A server that lists one name last -/

/-- A string that is longer than all of these. -/
def longer : List String → String
  | [] => "x"
  | id :: ids => id ++ longer ids

theorem length_longer_pos (ids : List String) : 0 < (longer ids).length := by
  induction ids with
  | nil => decide
  | cons id ids ih =>
      rw [longer, String.length_append]
      exact Nat.add_pos_right _ ih

theorem length_lt_longer {id : String} {ids : List String} (h : id ∈ ids) :
    id.length < (longer ids).length := by
  induction ids with
  | nil => cases h
  | cons id' ids ih =>
      rw [longer, String.length_append]
      rcases List.mem_cons.mp h with rfl | h
      · exact Nat.lt_add_of_pos_right (length_longer_pos ids)
      · exact Nat.lt_add_left _ (ih h)

theorem longer_notMem (ids : List String) : longer ids ∉ ids := fun h ↦
  absurd (length_lt_longer h) (lt_irrefl _)

theorem map_id_renamed (scripts : List Script) (id name : String) :
    (scripts.map fun x ↦ if x.id = id then { x with name := name } else x).map Script.id =
      scripts.map Script.id := by
  rw [List.map_map]
  refine List.map_congr_left fun x _ ↦ ?_
  simp only [Function.comp_apply]
  split <;> rfl

/-- `rename` of one script, which keeps the names apart if no other one has the new name. -/
theorem nodup_renamed {scripts : List Script} {id name : String}
    (hnames : (scripts.map Script.name).Nodup) (hids : (scripts.map Script.id).Nodup)
    (h : ∀ x ∈ scripts, x.id ≠ id → x.name ≠ name) :
    ((scripts.map fun x ↦ if x.id = id then { x with name := name } else x).map
      Script.name).Nodup := by
  rw [List.map_map]
  refine List.Nodup.map_on (fun x hx y hy hxy ↦ ?_) (List.Nodup.of_map _ hids)
  simp only [Function.comp_apply] at hxy
  split at hxy
  · next hxid =>
      split at hxy
      · next hyid => exact List.inj_on_of_nodup_map hids hx hy (hxid.trans hyid.symm)
      · next hyid => exact absurd hxy.symm (h y hy hyid)
  · next hxid =>
      split at hxy
      · next hyid => exact absurd hxy (h x hx hxid)
      · exact List.inj_on_of_nodup_map hnames hx hy hxy

/-- A server that does what is documented, with an order of results. -/
def Server.ofOrder (order : List Script → List Script)
    (order_perm : ∀ scripts, (order scripts).Perm scripts) : Server where
  order := order
  order_perm := order_perm
  create s name content :=
    if h : name ∈ s.names then .error (.set .alreadyExists none)
    else .ok {
      scripts := s.scripts ++ [⟨longer s.ids, name, content⟩]
      active := s.active
      ids_nodup := by
        rw [List.map_append]
        exact List.nodup_append_comm.mp (s.ids_nodup.cons (longer_notMem s.ids))
      names_nodup := by
        rw [List.map_append]
        exact List.nodup_append_comm.mp (s.names_nodup.cons h)
      active_mem := fun id hid ↦ by
        rw [List.map_append]
        exact List.mem_append_left _ (s.active_mem id hid) }
  create_of_mem s name content h := dif_pos h
  create_of_notMem s name content h := ⟨_, _, dif_neg h, rfl, rfl⟩
  destroy s id :=
    if h : s.active = some id then .error (.set .scriptIsActive none)
    else .ok {
      scripts := s.scripts.filter fun x ↦ x.id ≠ id
      active := s.active
      ids_nodup := s.ids_nodup.sublist (List.filter_sublist.map _)
      names_nodup := s.names_nodup.sublist (List.filter_sublist.map _)
      active_mem := fun id' hid' ↦ by
        obtain ⟨x, hx, rfl⟩ := List.mem_map.mp (s.active_mem id' hid')
        refine List.mem_map_of_mem (List.mem_filter.mpr ⟨hx, ?_⟩)
        have hne : x.id ≠ id := fun heq ↦ h (heq ▸ hid')
        simpa using hne }
  destroy_of_active s id _ h := dif_pos h
  destroy_of_not_active s id _ h := ⟨_, dif_neg h, rfl, rfl⟩
  rename s id name :=
    if h : ∃ x ∈ s.scripts, x.id ≠ id ∧ x.name = name then .error (.set .alreadyExists none)
    else .ok {
      scripts := s.scripts.map fun x ↦ if x.id = id then { x with name := name } else x
      active := s.active
      ids_nodup := by
        rw [map_id_renamed]
        exact s.ids_nodup
      names_nodup := nodup_renamed s.names_nodup s.ids_nodup fun x hx hid hname ↦
        h ⟨x, hx, hid, hname⟩
      active_mem := by
        rw [map_id_renamed]
        exact s.active_mem }
  rename_of_taken s id name _ h := dif_pos h
  rename_of_free s id name _ h := ⟨_, dif_neg h, rfl, rfl⟩
  activate s id :=
    if h : id ∈ s.ids then
      { s with active := some id, active_mem := fun _ hid' ↦ Option.mem_some_iff.mp hid' ▸ h }
    else s
  activate_eq s id h := by
    rw [dif_pos h]
    exact ⟨rfl, rfl⟩
  deactivate s := { s with active := none, active_mem := fun _ h ↦ absurd h (by simp) }
  deactivate_eq s := ⟨rfl, rfl⟩
  get s id := (s.find? id).map fun x ↦ some x.content
  get_eq s id := rfl

def Server.putLast (name : String) : Server :=
  .ofOrder (fun scripts ↦ scripts.filter (fun x ↦ !decide (x.name = name)) ++
      scripts.filter fun x ↦ x.name = name) fun scripts ↦
    List.perm_append_comm.trans (List.filter_append_perm _ scripts)

theorem target_putLast {filter : NameFilter} {stops : Outage} {s : Store} {a : Action}
    {name name' : String} (hname : a.lookedUp = some name) (hquery : stops .query = none)
    (hmem : name' ∈ s.named.names) (hfound : filter.found name name') :
    a.target filter (.putLast name') stops s = some name' := by
  obtain ⟨x, hx, rfl⟩ := Store.mem_names_named.mp hmem
  have hlast : (s.query filter (.putLast x.name) name).getLast? = some x.id := by
    rw [Store.query, List.getLast?_map, Server.putLast, Server.ofOrder, List.getLast?_append]
    cases hget : ((s.scripts.filter fun y ↦ filter.found name y.name).filter fun y ↦
        y.name = x.name).getLast? with
    | none =>
        have hx' : x ∈ (s.scripts.filter fun y ↦ filter.found name y.name).filter fun y ↦
            y.name = x.name := by
          simp [hx, hfound]
        rw [List.getLast?_eq_none_iff.mp hget] at hx'
        cases hx'
    | some y =>
        obtain ⟨hy, heq⟩ := List.mem_filter.mp (List.mem_of_getLast? hget)
        have hyx : y = x :=
          (eq_of_name_eq (List.mem_filter.mp hy).1 hx).mp (of_decide_eq_true heq)
        rw [hyx]
        rfl
  have hid : getScriptId filter (.putLast x.name) stops s name = .ok x.id := by
    rw [getScriptId, attempt_ok_bind hquery, hlast]
    rfl
  rw [Action.target, hname, Option.bind_some, hid]
  dsimp only
  rw [Store.find?_id hx]
  rfl

/-- **Requests.**  Under whatever order of results and choice of ids, the replies to any requests
and the scripts that they are about are the ones that are meant, and so are the scripts at the end,
if and only if the name in each request that reaches the server is found in no other name. -/
theorem requests_iff (filter : NameFilter) (s : Store) (steps : List Step) :
    (∀ server : Server, Run.answers (serve filter server) s steps =
          Run.answers Named.serve s.named steps ∧
        (Run.final (serve filter server) s steps).named =
          Run.final Named.serve s.named steps) ↔
      Run.Along (fun l i ↦ (Named.serve l i).1) (Unambiguous filter) s.named steps := by
  refine Run.answers_iff_along (fun server s i ↦ serve_eq i) fun l i hC ↦ ?_
  cases i with
  | other s' => exact absurd trivial hC
  | request request stops =>
      simp only [Unambiguous, not_forall] at hC
      obtain ⟨a, name, hparse, hname, hquery, name', hmem, hfound, hne⟩ := hC
      refine ⟨.putLast name', fun s hs ↦ ?_⟩
      subst hs
      rw [serve, Named.serve, hparse]
      dsimp only
      intro heq
      obtain ⟨-, htarget⟩ := Prod.mk.inj (Option.some.inj heq)
      rw [target_putLast hname (Option.isNone_iff_eq_none.mp hquery) hmem hfound,
        Action.meant, hname, Option.bind_some] at htarget
      cases hknown : s.named.known stops name with
      | error response =>
          rw [hknown] at htarget
          cases htarget
      | ok content =>
          rw [hknown] at htarget
          exact hne (Option.some.inj htarget)

/-- The filter of JMAP. -/
def NameFilter.contains : NameFilter where
  found name name' := asBytes name <:+: asBytes name'
  found_self _ := decide_eq_true List.infix_rfl

/-- To delete `work` may delete `homework`. -/
example : ¬ Unambiguous .contains ⟨[("work", []), ("homework", [])], none⟩
    (.request ⟨"", .deleteScript, [.argument (asBytes "work")]⟩ fun _ ↦ none) := by
  intro h
  have hparse : Action.ofRequest ⟨"", .deleteScript, [.argument (asBytes "work")]⟩ =
      some (.ok (.deleteScript "work")) := by
    rw [Action.ofRequest]
    simp [Action.stringParam, Token.unwrapString]
  exact absurd (h _ _ hparse rfl rfl "homework" (.tail _ (.head _)) (by decide +kernel)) (by decide)

end ImapToJmap.ManageSieve.Scripts
