/-
# Why a YAML text cannot be read

The reasons come in the order in which a text is taken apart: characters, tokens, the tree of
nodes, and the values that the nodes stand for.
-/

namespace ConfigRegistry.Yaml

/-- A reason why a YAML text cannot be read. -/
inductive Fault where
  /-- A control character stands in the text. -/
  | controlCharacter
  /-- A line that has to hold a key has no colon. -/
  | colonExpected
  /-- A hyphen stands where no item of a list may begin. -/
  | entryNotAllowed
  /-- A question mark stands where no key may begin. -/
  | keyNotAllowed
  /-- A colon stands where no value may follow. -/
  | valueNotAllowed
  /-- A character begins no token. -/
  | noToken
  /-- A directive is malformed or unknown. -/
  | badDirective
  /-- An anchor or alias has no name. -/
  | badAnchor
  /-- A tag is malformed. -/
  | badTag
  /-- The header of a block scalar is malformed. -/
  | badBlockHeader
  /-- A tab stands where spaces have to indent. -/
  | tabIndents
  /-- A quoted scalar is not closed. -/
  | unclosedQuote
  /-- An escape is unknown or names no character. -/
  | badEscape
  /-- A colon inside a flow collection is followed by an indicator. -/
  | unexpectedColon
  /-- The tokens end too soon. -/
  | endOfTokens
  /-- A document does not begin with its mark. -/
  | documentStartExpected
  /-- A directive is given twice. -/
  | repeatedDirective
  /-- The version of the language is not supported. -/
  | wrongVersion
  /-- The handle of a tag is not declared. -/
  | unknownHandle
  /-- A node has no content. -/
  | contentExpected
  /-- A block sequence goes on with something else than an item. -/
  | entryExpected
  /-- A block mapping goes on with something else than a key. -/
  | keyExpected
  /-- A comma or closing bracket is missing. -/
  | commaExpected
  /-- An alias names no anchor. -/
  | unknownAnchor
  /-- There is a document where none may follow. -/
  | moreDocuments
  /-- Lists and mappings are nested too deeply. -/
  | tooDeep
  /-- Aliases are followed too often. -/
  | tooManyAliases
  /-- A node is of another type than expected. -/
  | wrongType
  /-- A scalar is not of the type that its tag names, or is out of range. -/
  | wrongValue
  /-- A field is not known. -/
  | unknownField (name : String)
  /-- A field is given twice. -/
  | repeatedField (name : String)
  /-- A field is not given. -/
  | missingField (name : String)
  /-- A name is none of those expected. -/
  | unknownVariant (name : String)
deriving DecidableEq, Repr

/-- The words for a reason. -/
def Fault.message : Fault → String
  | controlCharacter => "control characters are not allowed"
  | colonExpected => "could not find expected ':'"
  | entryNotAllowed => "block sequence entries are not allowed in this context"
  | keyNotAllowed => "mapping keys are not allowed in this context"
  | valueNotAllowed => "mapping values are not allowed in this context"
  | noToken => "found character that cannot start any token"
  | badDirective => "found a malformed directive"
  | badAnchor => "did not find expected alphabetic or numeric character"
  | badTag => "found a malformed tag"
  | badBlockHeader => "did not find expected comment or line break"
  | tabIndents => "found a tab character where an indentation space is expected"
  | unclosedQuote => "found unexpected end of quoted scalar"
  | badEscape => "found unknown escape character"
  | unexpectedColon => "found unexpected ':'"
  | endOfTokens => "found unexpected end of stream"
  | documentStartExpected => "did not find expected document start"
  | repeatedDirective => "found duplicate directive"
  | wrongVersion => "found incompatible YAML document"
  | unknownHandle => "found undefined tag handle"
  | contentExpected => "did not find expected node content"
  | entryExpected => "did not find expected '-' indicator"
  | keyExpected => "did not find expected key"
  | commaExpected => "did not find expected ',' or closing bracket"
  | unknownAnchor => "unknown anchor"
  | moreDocuments => "deserializing from YAML containing more than one document is not supported"
  | tooDeep => "recursion limit exceeded"
  | tooManyAliases => "repetition limit exceeded"
  | wrongType => "invalid type"
  | wrongValue => "invalid value"
  | unknownField name => "unknown field " ++ name
  | repeatedField name => "duplicate field " ++ name
  | missingField name => "missing field " ++ name
  | unknownVariant name => "unknown variant " ++ name

end ConfigRegistry.Yaml
