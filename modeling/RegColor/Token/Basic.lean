import RegColor.Text.Quote

/-!
# Tokens

The tokens of a listing's source text. A line break is a token of its own, and every token carries
the line and the column at which it starts, both counted from one.
-/

namespace RegColor

/-- What a token is. A kind without a role in the grammar is kept by its name. -/
inductive TokenKind where
  | eof
  | newline
  | ident
  | int
  | float
  | func
  | var
  | lparen
  | rparen
  | lbrace
  | rbrace
  | lbracket
  | rbracket
  | colon
  | comma
  | minus
  | other (name : String)
deriving DecidableEq, Repr

namespace TokenKind

/-- The name of a kind in messages. -/
def name : TokenKind → String
  | eof => "EOF"
  | newline => "NEWLINE"
  | ident => "IDENT"
  | int => "INT"
  | float => "FLOAT"
  | func => "FUNC"
  | var => "VAR"
  | lparen => "LPAREN"
  | rparen => "RPAREN"
  | lbrace => "LBRACE"
  | rbrace => "RBRACE"
  | lbracket => "LBRACKET"
  | rbracket => "RBRACKET"
  | colon => "COLON"
  | comma => "COMMA"
  | minus => "MINUS"
  | other name => name

/-- The kinds that the grammar knows. -/
def known : List TokenKind :=
  [eof, newline, ident, int, float, func, var, lparen, rparen, lbrace, rbrace, lbracket, rbracket,
    colon, comma, minus]

/-- The kind with a given name. -/
def ofName (name : String) : TokenKind :=
  (known.find? (·.name = name)).getD (other name)

end TokenKind

/-- A piece of source text with its kind and the place where it starts. -/
structure Token where
  kind : TokenKind
  value : String
  line : Int
  column : Int
deriving DecidableEq, Repr

/-- A character that starts no token. -/
structure UnknownChar where
  char : Char
  line : Int
  column : Int
deriving DecidableEq, Repr

namespace UnknownChar

def lexeme (e : UnknownChar) : String := e.char.toString

def message : String := "unexpected character"

/-- The full text of the report. -/
def text (e : UnknownChar) : String :=
  s!"line {e.line}, col {e.column}: {message} (got {Text.quote e.lexeme})"

end UnknownChar

end RegColor
