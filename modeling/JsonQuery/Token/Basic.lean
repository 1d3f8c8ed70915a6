import JsonQuery.Number.Numeral

/-! Tokens of query expressions. A `Lexeme` is what a token says: a name, a quoted name, a raw string, a JSON
    literal, a number, one of the punctuation marks, or the end of the text. A `Token` adds where it stands:
    the positions of its first character and of the one after its last, and the byte offset of the first. -/

namespace JsonQuery

/-- The comparison operators. -/
inductive Comparator where
  | eq | ne | lt | le | gt | ge
  deriving DecidableEq

/-- A comparison operator as written. -/
def Comparator.text : Comparator → String
  | .eq => "=="
  | .ne => "!="
  | .lt => "<"
  | .le => "<="
  | .gt => ">"
  | .ge => ">="

/-- The comparison operators, in order. -/
def Comparator.all : List Comparator := [.eq, .ne, .lt, .le, .gt, .ge]

/-- The punctuation marks. -/
inductive Mark where
  | dot | star | lbracket | rbracket | flatten | filter | lbrace | rbrace | lparen | rparen
  | comma | colon | pipe | or | and | not | reference | current | minus
  | comparator (op : Comparator)
  deriving DecidableEq

/-- A mark as written. -/
def Mark.text : Mark → String
  | .dot => "."
  | .star => "*"
  | .lbracket => "["
  | .rbracket => "]"
  | .flatten => "[]"
  | .filter => "[?"
  | .lbrace => "\x7b"
  | .rbrace => "\x7d"
  | .lparen => "("
  | .rparen => ")"
  | .comma => ","
  | .colon => ":"
  | .pipe => "|"
  | .or => "||"
  | .and => "&&"
  | .not => "!"
  | .reference => "&"
  | .current => "@"
  | .minus => "-"
  | .comparator op => op.text

/-- The name of a mark in messages. -/
def Mark.label : Mark → String
  | .dot => "dot"
  | .star => "star"
  | .lbracket => "lbracket"
  | .rbracket => "rbracket"
  | .flatten => "flatten"
  | .filter => "filter"
  | .lbrace => "lbrace"
  | .rbrace => "rbrace"
  | .lparen => "lparen"
  | .rparen => "rparen"
  | .comma => "comma"
  | .colon => "colon"
  | .pipe => "pipe"
  | .or => "or"
  | .and => "and"
  | .not => "not"
  | .reference => "expref"
  | .current => "current"
  | .minus => "minus"
  | .comparator .eq => "eq"
  | .comparator .ne => "ne"
  | .comparator .lt => "lt"
  | .comparator .le => "lte"
  | .comparator .gt => "gt"
  | .comparator .ge => "gte"

/-- What a token says. -/
inductive Lexeme where
  | name (text : String)
  | quotedName (text : String)
  | rawString (text : String)
  | literal (text : String)
  | number (value : Nat)
  | mark (m : Mark)
  | finish
  deriving DecidableEq

namespace Lexeme

/-- The name of the kind of a lexeme in messages. -/
def label : Lexeme → String
  | name _ => "unquoted_identifier"
  | quotedName _ => "quoted_identifier"
  | rawString _ => "raw_string"
  | literal _ => "literal"
  | number _ => "number"
  | mark m => m.label
  | finish => "eof"

/-- The value of a lexeme as text; a number has no superfluous zeros. -/
def text : Lexeme → String
  | name s | quotedName s | rawString s | literal s => s
  | number n => String.ofList (natDigits n)
  | mark m => m.text
  | finish => ""

/-- A lexeme as messages describe it. -/
def describe : Lexeme → String
  | finish => "end of expression"
  | l => l.label ++ " '" ++ l.text ++ "'"

end Lexeme

/-- A lexeme and where it stands. -/
structure Token where
  lexeme : Lexeme
  start : Nat
  stop : Nat
  offset : Nat
  deriving DecidableEq

/-- The three forms between delimiters. -/
inductive Quotation where
  | name | rawString | literal
  deriving DecidableEq

/-- The character on both sides of a delimited form. -/
def Quotation.delimiter : Quotation → Char
  | .name => '\x22'
  | .rawString => '\x27'
  | .literal => '\x60'

/-- The name of a delimited form in messages. -/
def Quotation.label : Quotation → String
  | .name => "quoted identifier"
  | .rawString => "raw string"
  | .literal => "JSON literal"

end JsonQuery
