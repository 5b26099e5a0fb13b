import TokenRules.Text.Basic

/-! Names for the signs that the grammars here give a meaning. -/
namespace TokenRules.Sign

@[match_pattern] abbrev tab : CodePoint := 0x09
@[match_pattern] abbrev lineFeed : CodePoint := 0x0A
@[match_pattern] abbrev carriageReturn : CodePoint := 0x0D
@[match_pattern] abbrev space : CodePoint := 0x20
@[match_pattern] abbrev exclamation : CodePoint := 0x21
@[match_pattern] abbrev quotation : CodePoint := 0x22
@[match_pattern] abbrev number : CodePoint := 0x23
@[match_pattern] abbrev dollar : CodePoint := 0x24
@[match_pattern] abbrev apostrophe : CodePoint := 0x27
@[match_pattern] abbrev leftParen : CodePoint := 0x28
@[match_pattern] abbrev rightParen : CodePoint := 0x29
@[match_pattern] abbrev asterisk : CodePoint := 0x2A
@[match_pattern] abbrev plus : CodePoint := 0x2B
@[match_pattern] abbrev comma : CodePoint := 0x2C
@[match_pattern] abbrev hyphen : CodePoint := 0x2D
@[match_pattern] abbrev stop : CodePoint := 0x2E
@[match_pattern] abbrev slash : CodePoint := 0x2F
@[match_pattern] abbrev colon : CodePoint := 0x3A
@[match_pattern] abbrev semicolon : CodePoint := 0x3B
@[match_pattern] abbrev less : CodePoint := 0x3C
@[match_pattern] abbrev equal : CodePoint := 0x3D
@[match_pattern] abbrev greater : CodePoint := 0x3E
@[match_pattern] abbrev question : CodePoint := 0x3F
@[match_pattern] abbrev leftBracket : CodePoint := 0x5B
@[match_pattern] abbrev backslash : CodePoint := 0x5C
@[match_pattern] abbrev rightBracket : CodePoint := 0x5D
@[match_pattern] abbrev caret : CodePoint := 0x5E
@[match_pattern] abbrev lowLine : CodePoint := 0x5F
@[match_pattern] abbrev leftBrace : CodePoint := 0x7B
@[match_pattern] abbrev bar : CodePoint := 0x7C
@[match_pattern] abbrev rightBrace : CodePoint := 0x7D

end TokenRules.Sign
