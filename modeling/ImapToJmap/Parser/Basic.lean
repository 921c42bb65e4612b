import ImapToJmap.Core.Receiver

/-!
# Command names

`parser/mod.rs`: the commands as the receiver recognises them.  Only FETCH has brackets, angle
brackets and dots as tokens of their own.
-/

namespace ImapToJmap

/-- The arms of `Command::parse`. -/
def Command.names : List (String × (Bool → Command)) := [
  ("CAPABILITY", fun _ ↦ .capability),
  ("NOOP", fun _ ↦ .noop),
  ("LOGOUT", fun _ ↦ .logout),
  ("STARTTLS", fun _ ↦ .startTls),
  ("AUTHENTICATE", fun _ ↦ .authenticate),
  ("LOGIN", fun _ ↦ .login),
  ("ENABLE", fun _ ↦ .enable),
  ("SELECT", fun _ ↦ .select),
  ("EXAMINE", fun _ ↦ .examine),
  ("CREATE", fun _ ↦ .create),
  ("DELETE", fun _ ↦ .delete),
  ("RENAME", fun _ ↦ .rename),
  ("SUBSCRIBE", fun _ ↦ .subscribe),
  ("UNSUBSCRIBE", fun _ ↦ .unsubscribe),
  ("LIST", fun _ ↦ .list),
  ("NAMESPACE", fun _ ↦ .namespace),
  ("STATUS", fun _ ↦ .status),
  ("APPEND", fun _ ↦ .append),
  ("IDLE", fun _ ↦ .idle),
  ("CLOSE", fun _ ↦ .close),
  ("UNSELECT", fun _ ↦ .unselect),
  ("EXPUNGE", .expunge),
  ("SEARCH", .search),
  ("FETCH", .fetch),
  ("STORE", .store),
  ("COPY", .copy),
  ("MOVE", .move),
  ("SORT", .sort),
  ("THREAD", .thread),
  ("LSUB", fun _ ↦ .lsub),
  ("CHECK", fun _ ↦ .check),
  ("SETACL", fun _ ↦ .setAcl),
  ("DELETEACL", fun _ ↦ .deleteAcl),
  ("GETACL", fun _ ↦ .getAcl),
  ("LISTRIGHTS", fun _ ↦ .listRights),
  ("MYRIGHTS", fun _ ↦ .myRights),
  ("UNAUTHENTICATE", fun _ ↦ .unauthenticate),
  ("ID", fun _ ↦ .id)]

/-- `Command::parse` -/
def Command.parse (value : Bytes) (isUid : Bool) : Option Command :=
  (Command.names.find? fun e ↦ asBytes e.1 = value).map fun e ↦ e.2 isUid

/-- `Command::tokenize_brackets` -/
def Command.tokenizeBrackets : Command → Bool
  | fetch _ => true
  | _ => false

instance : CommandParser Command where
  default := .noop
  parse := Command.parse
  tokenizeBrackets := Command.tokenizeBrackets

/-- Every name is a short word, and none is the prefix `UID`. -/
theorem Command.names_words : ∀ e ∈ Command.names,
    asBytes e.1 ≠ [] ∧ (asBytes e.1).length ≤ 15 ∧
      eqIgnoreAsciiCase (asBytes e.1) (asBytes "UID") = false ∧
        ∀ ch ∈ asBytes e.1, isAsciiAlphanumeric ch = true := by
  decide +kernel

/-- What is recognised is a short word. -/
theorem Command.word_of_parse {value : Bytes} {isUid : Bool} {command : Command}
    (h : Command.parse value isUid = some command) :
    value ≠ [] ∧ value.length ≤ 15 ∧ eqIgnoreAsciiCase value (asBytes "UID") = false ∧
      ∀ ch ∈ value, isAsciiAlphanumeric ch = true := by
  obtain ⟨e, he, -⟩ := Option.map_eq_some_iff.mp h
  have hvalue : asBytes e.1 = value := by simpa using List.find?_some he
  rw [← hvalue]
  exact Command.names_words e (List.mem_of_find?_eq_some he)

end ImapToJmap
