import ImapToJmap.Core.Bytes
import ImapToJmap.Data.Ascii

/-!
# Strings on the wire

The two forms in which `protocol/mod.rs` writes a string: quoted, and as a literal.
-/

namespace ImapToJmap

open Ascii

/-- The bytes of one byte of a quoted string. -/
def escape (c : UInt8) : Bytes := if c = backslash ∨ c = quote then [backslash, c] else [c]

/-- `quoted_string` -/
def quotedString (text : String) : Bytes := quote :: (asBytes text).flatMap escape ++ [quote]

/-- `literal_string` -/
def literalString (text : String) : Bytes :=
  braceOpen :: decimal (asBytes text).length ++ [braceClose, cr, lf] ++ asBytes text

end ImapToJmap
