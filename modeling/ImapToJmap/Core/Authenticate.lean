import ImapToJmap.Core.Receiver

/-!
# Credentials

What a client authenticates with, on IMAP as on ManageSieve: the mechanisms of
`protocol/authenticate.rs` and `parser/authenticate.rs`, and the two challenges that
`commands/authenticate.rs` decodes.
-/

namespace ImapToJmap

/-- `Mechanism` -/
inductive Mechanism where
  | plain
  | cramMd5
  | digestMd5
  | scramSha1
  | scramSha256
  | apop
  | ntlm
  | gssapi
  | anonymous
  | external
  | oAuthBearer
  | xOauth2
deriving DecidableEq

namespace Mechanism

/-- The mechanisms in the order in which `Mechanism::parse` tries them. -/
def all : List Mechanism :=
  [plain, cramMd5, digestMd5, scramSha1, scramSha256, apop, ntlm, gssapi, anonymous, external,
    oAuthBearer, xOauth2]

/-- `Mechanism::serialize` -/
def name : Mechanism → String
  | plain => "PLAIN"
  | cramMd5 => "CRAM-MD5"
  | digestMd5 => "DIGEST-MD5"
  | scramSha1 => "SCRAM-SHA-1"
  | scramSha256 => "SCRAM-SHA-256"
  | apop => "APOP"
  | ntlm => "NTLM"
  | gssapi => "GSSAPI"
  | anonymous => "ANONYMOUS"
  | external => "EXTERNAL"
  | oAuthBearer => "OAUTHBEARER"
  | xOauth2 => "XOAUTH2"

/-- `Mechanism::parse` -/
def parse (value : Bytes) : Option Mechanism :=
  all.find? fun m ↦ eqIgnoreAsciiCase value (asBytes m.name)

end Mechanism

/-- `Credentials` -/
inductive Credentials where
  | basic (username secret : String)
  | bearer (token : String)
deriving DecidableEq

/-- The loop of `decode_challenge_plain`: the parts between zero bytes, of which the second is the
user name and the third the secret. -/
def plainParts : Bytes → ℕ → Bytes × Bytes
  | [], _ => ([], [])
  | ch :: challenge, argNum =>
      if ch ≠ 0 then
        let (username, secret) := plainParts challenge argNum
        if argNum = 1 then (ch :: username, secret)
        else if argNum = 2 then (username, ch :: secret)
        else (username, secret)
      else plainParts challenge (argNum + 1)

/-- `decode_challenge_plain` -/
def decodeChallengePlain (challenge : Bytes) : Option Credentials :=
  let (username, secret) := plainParts challenge 0
  match fromUtf8 username, fromUtf8 secret with
  | some username, some secret =>
      if username ≠ "" ∧ secret ≠ "" then some (.basic username secret) else none
  | _, _ => none

/-- The loop of `decode_challenge_oauth`; the flag is `saw_marker`. -/
def oauthFrom : Bool → Bytes → Option Credentials
  | _, [] => none
  | sawMarker, ch :: challenge =>
      if sawMarker then
        if (asBytes "auth=Bearer ").isPrefixOf (ch :: challenge) then
          let token := (ch :: challenge).drop 12
          if (1 : UInt8) ∈ token then
            (fromUtf8 (token.takeWhile (· ≠ 1))).map .bearer
          else none
        else oauthFrom false challenge
      else oauthFrom (ch == 1) challenge

/-- `decode_challenge_oauth` -/
def decodeChallengeOauth (challenge : Bytes) : Option Credentials := oauthFrom true challenge

namespace Token

/-- `Display for Token`, of the tokens that carry no text of their own. -/
def symbol : Token → String
  | parenthesisOpen => "("
  | parenthesisClose => ")"
  | bracketOpen => "["
  | bracketClose => "]"
  | gt => ">"
  | lt => "<"
  | dot => "."
  | nil | argument _ => ""

/-- `Token::unwrap_string` -/
def unwrapString : Token → Option String
  | argument value => fromUtf8 value
  | other => some other.symbol

/-- `Token::unwrap_bytes` -/
def unwrapBytes : Token → Bytes
  | argument value => value
  | other => asBytes other.symbol

end Token

/-- `parse_authenticate`: the mechanism and the parameters. -/
def parseAuthenticate (tokens : List Token) : Option (Mechanism × List String) :=
  match tokens with
  | [] => none
  | token :: tokens =>
      (Mechanism.parse token.unwrapBytes).map fun m ↦ (m, tokens.filterMap Token.unwrapString)

/-- The credentials in the last parameter; the first argument is `base64::decode`. -/
def challengeCredentials (base64 : String → Option Bytes) (mechanism : Mechanism)
    (params : List String) : Option Credentials := do
  let challenge ← base64 (← params.getLast?)
  if mechanism = .plain then decodeChallengePlain challenge else decodeChallengeOauth challenge

end ImapToJmap
