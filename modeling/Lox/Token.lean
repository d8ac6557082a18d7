import Lox.Decimal

/-!
# Tokens

The words of the language.  A token has a kind, the piece of source text it was read from, the
line it starts on, and for literals the value written.
-/

namespace Lox

/-- The kinds of token; the last seventeen before `eof` are the reserved words. -/
inductive Kind where
  | leftParen | rightParen | leftBrace | rightBrace
  | comma | dot | minus | plus | semicolon | slash | star
  | bang | bangEqual | equal | equalEqual | greater | greaterEqual | less | lessEqual
  | identifier | string | number
  | andWord | classWord | elseWord | falseWord | funWord | forWord | ifWord | includeWord
  | nilWord | orWord | printWord | returnWord | superWord | thisWord | trueWord | varWord
  | whileWord
  | eof
deriving DecidableEq, Repr

namespace Kind

/-- The kind's name as diagnostics and token listings show it. -/
def name : Kind → String
  | leftParen => "LeftParen"
  | rightParen => "RightParen"
  | leftBrace => "LeftBrace"
  | rightBrace => "RightBrace"
  | comma => "Comma"
  | dot => "Dot"
  | minus => "Minus"
  | plus => "Plus"
  | semicolon => "Semicolon"
  | slash => "Slash"
  | star => "Star"
  | bang => "Bang"
  | bangEqual => "BangEqual"
  | equal => "Equal"
  | equalEqual => "EqualEqual"
  | greater => "Greater"
  | greaterEqual => "GreaterEqual"
  | less => "Less"
  | lessEqual => "LessEqual"
  | identifier => "Identifier"
  | string => "String"
  | number => "Number"
  | andWord => "And"
  | classWord => "Class"
  | elseWord => "Else"
  | falseWord => "False"
  | funWord => "Fun"
  | forWord => "For"
  | ifWord => "If"
  | includeWord => "Include"
  | nilWord => "Nil"
  | orWord => "Or"
  | printWord => "Print"
  | returnWord => "Return"
  | superWord => "Super"
  | thisWord => "This"
  | trueWord => "True"
  | varWord => "Var"
  | whileWord => "While"
  | eof => "Eof"

/-- Every kind, in the order of their declaration. -/
def all : List Kind :=
  [leftParen, rightParen, leftBrace, rightBrace, comma, dot, minus, plus, semicolon, slash, star,
    bang, bangEqual, equal, equalEqual, greater, greaterEqual, less, lessEqual,
    identifier, string, number,
    andWord, classWord, elseWord, falseWord, funWord, forWord, ifWord, includeWord, nilWord,
    orWord, printWord, returnWord, superWord, thisWord, trueWord, varWord, whileWord, eof]

def ofName? (name : String) : Option Kind :=
  all.find? fun kind => kind.name == name

/-- The kind of a reserved word. -/
def ofWord? : List Char → Option Kind
  | ['a', 'n', 'd'] => some andWord
  | ['c', 'l', 'a', 's', 's'] => some classWord
  | ['e', 'l', 's', 'e'] => some elseWord
  | ['f', 'a', 'l', 's', 'e'] => some falseWord
  | ['f', 'o', 'r'] => some forWord
  | ['f', 'u', 'n'] => some funWord
  | ['i', 'f'] => some ifWord
  | ['i', 'n', 'c', 'l', 'u', 'd', 'e'] => some includeWord
  | ['n', 'i', 'l'] => some nilWord
  | ['o', 'r'] => some orWord
  | ['p', 'r', 'i', 'n', 't'] => some printWord
  | ['r', 'e', 't', 'u', 'r', 'n'] => some returnWord
  | ['s', 'u', 'p', 'e', 'r'] => some superWord
  | ['t', 'h', 'i', 's'] => some thisWord
  | ['t', 'r', 'u', 'e'] => some trueWord
  | ['v', 'a', 'r'] => some varWord
  | ['w', 'h', 'i', 'l', 'e'] => some whileWord
  | _ => none

end Kind

/-- A value written out in source text. -/
inductive Literal where
  | nil
  | bool (b : Bool)
  | number (x : Float)
  | string (s : String)
deriving DecidableEq, Repr

def boolText (b : Bool) : String :=
  if b then "true" else "false"

namespace Literal

/-- A literal that is no decimal can only be one that overflowed. -/
def numberNames : Decimal.Names := ⟨"NaN", "inf", "-inf"⟩

def text : Literal → String
  | nil => "nil"
  | bool b => boolText b
  | number x => Decimal.text numberNames x
  | string s => s

end Literal

structure Token where
  kind : Kind
  lexeme : String
  literal : Option Literal
  line : Nat
deriving DecidableEq, Repr

namespace Token

/-- The token that stands for the end of the text. -/
def endOn (line : Nat) : Token := ⟨.eof, "", none, line⟩

/-- Kind, text and line, as one line of a token listing. -/
def text (token : Token) : String :=
  token.kind.name ++ " '" ++ token.lexeme ++ "' (line " ++ toString token.line ++ ")"

/-- The value of a literal token; one that carries none counts as `nil`. -/
def value (token : Token) : Literal := token.literal.getD .nil

end Token

end Lox
