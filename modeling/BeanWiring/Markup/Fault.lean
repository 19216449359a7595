/-
# Faults of markup

What can be wrong with a document before its elements mean anything, and the text of
each fault.  Positions are byte offsets.
-/

namespace BeanWiring.Markup

/-- Why a character reference names no character. -/
inductive CharacterFault where
  | sign
  | empty
  | invalidDigit
  | tooLarge
  | zero
  | notCodepoint (code : Nat)
deriving DecidableEq

/-- Why a text cannot be unescaped. -/
inductive EscapeFault where
  /-- An `&` at `start` without a `;` before the next `&` or the end of the text. -/
  | unterminated (start length : Nat)
  | unknownEntity (start stop : Nat) (name : String)
  | character (fault : CharacterFault)
deriving DecidableEq

/-- Why the attributes of a tag cannot be read; positions count within the tag. -/
inductive AttributeFault where
  | expectedEq (position : Nat)
  | expectedValue (position : Nat)
  | unquotedValue (position : Nat)
  | unclosedQuote (position : Nat) (quote : Char)
  | duplicated (position previous : Nat)
deriving DecidableEq

/-- Why a document is not well formed. -/
inductive Fault where
  | unclosedTag
  | unknownMarkup
  | unclosedComment
  | unclosedCharacterData
  | unclosedDoctype
  | namelessDoctype
  | unclosedInstruction
  /-- An end tag while no element is open. -/
  | unmatchedEnd (name : String)
  | mismatchedEnd (expected found : String)
  | attributes (fault : AttributeFault)
  | attributeValue (fault : EscapeFault)
  | text (fault : EscapeFault)
  | unclosedElement (localName : String)
  | noElement
deriving DecidableEq

/-! ## Texts -/

/-- The text of a fault in a character reference. -/
def CharacterFault.message : CharacterFault → String
  | sign => "unexpected number sign"
  | empty => "cannot parse integer from empty string"
  | invalidDigit => "invalid digit found in string"
  | tooLarge => "number too large to fit in target type"
  | zero => "0x0 character is not permitted in XML"
  | notCodepoint code => "`" ++ toString code ++ "` is not a valid codepoint"

/-- The text of a fault in an escaped text. -/
def EscapeFault.message : EscapeFault → String
  | unterminated start length =>
    "Error while escaping character at range " ++ toString start ++ ".." ++ toString length ++
      ": Cannot find ';' after '&'"
  | unknownEntity start stop name =>
    "at " ++ toString start ++ ".." ++ toString stop ++ ": unrecognized entity `" ++ name ++ "`"
  | character fault => "invalid character reference: " ++ fault.message

/-- The text of a fault in the attributes of a tag. -/
def AttributeFault.message : AttributeFault → String
  | expectedEq position =>
    "position " ++ toString position ++
      ": attribute key must be directly followed by `=` or space"
  | expectedValue position =>
    "position " ++ toString position ++ ": `=` must be followed by an attribute value"
  | unquotedValue position =>
    "position " ++ toString position ++ ": attribute value must be enclosed in `\"` or `'`"
  | unclosedQuote position quote =>
    "position " ++ toString position ++ ": missing closing quote `" ++ quote.toString ++
      "` in attribute value"
  | duplicated position previous =>
    "position " ++ toString position ++
      ": duplicated attribute, previous declaration at position " ++ toString previous

/-- The text of a fault of a document. -/
def Fault.message : Fault → String
  | unclosedTag => "syntax error: tag not closed: `>` not found before end of input"
  | unknownMarkup => "syntax error: unknown or missed symbol in markup"
  | unclosedComment => "syntax error: comment not closed: `-->` not found before end of input"
  | unclosedCharacterData => "syntax error: CDATA not closed: `]]>` not found before end of input"
  | unclosedDoctype => "syntax error: DOCTYPE not closed: `>` not found before end of input"
  | namelessDoctype =>
    "ill-formed document: `<!DOCTYPE>` declaration does not contain a name of a document type"
  | unclosedInstruction =>
    "syntax error: processing instruction or xml declaration not closed: " ++
      "`?>` not found before end of input"
  | unmatchedEnd name =>
    "ill-formed document: close tag `</" ++ name ++ ">` does not match any open tag"
  | mismatchedEnd expected found =>
    "ill-formed document: expected `</" ++ expected ++ ">`, but `</" ++ found ++ ">` was found"
  | attributes fault => "Attribute error: " ++ fault.message
  | attributeValue fault => "Attribute value error: " ++ fault.message
  | text fault => fault.message
  | unclosedElement localName => "Element '" ++ localName ++ "' is not closed"
  | noElement => "Premature end of file"

end BeanWiring.Markup
