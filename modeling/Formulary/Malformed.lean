import Formulary.Text.Number
import Formulary.Token

/-! Why a text is no recipe, and where. -/

namespace Formulary

/-- What the grammar has against a token. -/
inductive Complaint where
  | unexpected
  | unexpectedAfterStatement
  | unexpectedInCode
  | unexpectedKeyword (word : String)
  | expectedKeyword (word : String)
  | unassignable (name : String)
  | invalidTarget
  | expectedColon
  | expectedMethodName
  | expectedConstantOrMethod
  | expectedClosing (bracket : Bracket)
  | openBlock
  | openHash
  | expectedArrow
  | positionalAfterPairs
  | blockParameter
  | parameter
  | expectedRescueVariable
  | expectedLoopVariable
  | expectedConstantName
  | expectedConstantAfterColons
  | expectedWhen
  | lambda
  | singletonClass

def Complaint.message : Complaint → String
  | unexpected => "Unexpected token"
  | unexpectedAfterStatement => "Unexpected token after statement"
  | unexpectedInCode => "Unexpected token in interpolation"
  | unexpectedKeyword word => s!"Unexpected keyword '{word}'"
  | expectedKeyword word => s!"Expected '{word}'"
  | unassignable name => s!"Cannot assign to {name}"
  | invalidTarget => "Invalid assignment target"
  | expectedColon => "Expected ':' in conditional expression"
  | expectedMethodName => "Expected method name"
  | expectedConstantOrMethod => "Expected constant or method name"
  | expectedClosing bracket => s!"Expected '{Lexeme.closingSign bracket}'"
  | openBlock => "Expected '\x7d' to close block"
  | openHash => "Expected '\x7d' to close hash"
  | expectedArrow => "Expected '=>' in hash literal"
  | positionalAfterPairs => "Positional argument after hash arguments"
  | blockParameter => "Unexpected token in block parameters"
  | parameter => "Unexpected token in parameter list"
  | expectedRescueVariable => "Expected rescue variable"
  | expectedLoopVariable => "Expected loop variable"
  | expectedConstantName => "Expected constant name"
  | expectedConstantAfterColons => "Expected constant after '::'"
  | expectedWhen => "Expected 'when' in case expression"
  | lambda => "Lambda literals are not supported"
  | singletonClass => "Singleton class definitions are not supported"

inductive Cause where
  | invalidByte (byte : UInt8)
  | unexpectedCharacter (c : Char)
  | missingInstanceName
  | missingGlobalName
  | openComment
  | openHeredoc (name : String)
  | openLiteral
  | openCode
  | codeInSymbol
  | token (complaint : Complaint) (found : Lexeme Token)
  | tooDeep

def Cause.message : Cause → String
  | invalidByte byte => "Invalid UTF-8 byte 0x" ++ String.ofList (Text.hexDigits 2 byte.toNat)
  | unexpectedCharacter c => "Unexpected character: " ++ Text.quoted (String.ofList [c])
  | missingInstanceName => "Expected instance variable name"
  | missingGlobalName => "Expected global variable name"
  | openComment => "Unterminated =begin comment"
  | openHeredoc name => s!"Unterminated heredoc {name}"
  | openLiteral => "Unterminated string literal"
  | openCode => "Unterminated interpolation"
  | codeInSymbol => "Interpolated symbols are not supported"
  | token complaint found => s!"{complaint.message} (found {found.describe})"
  | tooDeep => "Nesting too deep"

structure Malformed where
  cause : Cause
  pos : Position

/-- Why a text cannot be read into a syntax tree. -/
inductive ReadError where
  | malformed (error : Malformed)
  | number (fault : Text.NumberFault)

end Formulary
