import JsonQuery.Text.Position
import JsonQuery.Token.Lexer

/-! Why a text is not an expression. A `GrammarCause` is a rule of the grammar that is broken, with the lexeme
    found; its reason and the kinds of token that would have been accepted follow from it. An error is lexical,
    is about the token at a position, or is about an expression that ended too early: that one points at the
    innermost bracket left open, if there is one, and otherwise at the end. A number that is too long comes as
    a lexical fault but is not an error of the text; those who report errors let it pass. -/

namespace JsonQuery

/-- What could have stood at a place: an expression, a name, a number, a mark or the end. -/
inductive Expectation where
  | expression | identifier | number | mark (m : Mark) | finish
  deriving DecidableEq

/-- The name of an expectation in messages. -/
def Expectation.label : Expectation → String
  | .expression => "expression"
  | .identifier => "identifier"
  | .number => "number"
  | .mark m => m.label
  | .finish => "eof"

/-- A rule of the grammar that is broken. -/
inductive GrammarCause where
  | empty
  | tooDeep (limit : Int)
  | exhausted (limit : Int)
  | trailing (found : Lexeme)
  | notAnExpression (found : Lexeme)
  | strayNumber
  | strayReference
  | badLiteral (text : String) (fault : JsonFault)
  | quotedFunctionName
  | callWithoutName
  | notAnOperator (found : Lexeme)
  | expected (wanted : Expectation) (found : Lexeme)
  | notASelector (found : Lexeme)
  | notAField (found : Lexeme)
  | notASeparator (closer : Mark) (found : Lexeme)
  | notAKey (found : Lexeme)
  | unclosedSelector (mayGoOn : Bool) (found : Lexeme)
  | zeroStep
  deriving DecidableEq

/-- What was wrong, in words. -/
def GrammarCause.reason : GrammarCause → String
  | .empty => "Empty expression"
  | .tooDeep limit => "Expression exceeds maximum nesting depth of " ++ String.ofList (intText limit)
  | .exhausted limit => "Expression exceeds maximum nesting depth of " ++ String.ofList (intText limit)
    ++ " (interpreter stack exhausted)"
  | .trailing found | .notAnOperator found => "Unexpected token " ++ found.describe
  | .notAnExpression .finish => "Unexpected end of expression"
  | .notAnExpression found => "Unexpected token " ++ found.describe
  | .strayNumber => "Numbers are only valid inside brackets; use a JSON literal such as `1` instead"
  | .strayReference => "Expression references (&) are only valid as function arguments"
  | .badLiteral text fault => "Invalid JSON literal `" ++ text ++ "`: " ++ fault.message text.toList
  | .quotedFunctionName => "Quoted identifiers cannot be used as function names"
  | .callWithoutName => "Function calls must start with a function name"
  | .expected wanted found => "Expected " ++ wanted.label ++ ", got " ++ found.describe
  | .notASelector found => "Expected an index, slice or '*' inside brackets, got " ++ found.describe
  | .notAField found => "Expected identifier, '*', '[' or '\x7b' after '.', got " ++ found.describe
  | .notASeparator closer found => "Expected ',' or " ++ closer.label ++ ", got " ++ found.describe
  | .notAKey found => "Expected a key name, got " ++ found.describe
  | .unclosedSelector _ found => "Expected ']' to close index or slice, got " ++ found.describe
  | .zeroStep => "Slice step cannot be 0 (invalid step 0)"

/-- What would have been accepted instead; nothing where no single token would have helped. -/
def GrammarCause.expectations : GrammarCause → List Expectation
  | .empty | .notAnExpression _ => [.expression]
  | .trailing _ => [.finish]
  | .expected wanted _ => [wanted]
  | .notASelector _ => [.number, .mark .colon, .mark .star]
  | .notAField _ => [.identifier, .mark .star, .mark .lbracket, .mark .lbrace]
  | .notASeparator closer _ => [.mark .comma, .mark closer]
  | .notAKey _ => [.identifier]
  | .unclosedSelector true _ => [.mark .colon, .mark .rbracket]
  | .unclosedSelector false _ => [.mark .rbracket]
  | .tooDeep _ | .exhausted _ | .strayNumber | .strayReference | .badLiteral .. | .quotedFunctionName
  | .callWithoutName | .notAnOperator _ | .zeroStep => []

/-- Why a text is not an expression, and where. -/
inductive SyntaxError where
  | lexical (fault : LexicalFault)
  | grammar (cause : GrammarCause) (position : Nat)
  | incomplete (cause : GrammarCause) (unclosed : Option Lexeme) (position : Nat)
  deriving DecidableEq

namespace SyntaxError

/-- What was wrong, in words. -/
def reason : SyntaxError → String
  | lexical fault => fault.cause.reason
  | grammar cause _ | incomplete cause none _ => cause.reason
  | incomplete cause (some opener) _ => "Unclosed '" ++ opener.text ++ "': " ++ cause.reason

/-- Where the error is. -/
def position : SyntaxError → Nat
  | lexical fault => fault.position
  | grammar _ position | incomplete _ _ position => position

/-- What would have been accepted instead. -/
def expectations : SyntaxError → List Expectation
  | lexical _ => []
  | grammar cause _ | incomplete cause _ _ => cause.expectations

/-- The number that was too long, if that was wrong. -/
def overlong? : SyntaxError → Option Overlong
  | lexical fault => fault.cause.overlong?
  | grammar .. | incomplete .. => none

/-- Where the error is in the UTF-8 form of the text. -/
def offset (e : SyntaxError) (text : String) : Nat := Text.offsetAt text.toList e.position

/-- The reason with the line that it is about. -/
def message (e : SyntaxError) (text : String) : String := Text.pointAt e.reason text.toList e.position

end SyntaxError
end JsonQuery
