import Lox.Token
import Lox.Failure

/-!
# Diagnostics

Every way in which reading or running a program can fail, as data.  The wording of a diagnostic
is in one place, and a rendering is a sequence of pieces, in the order in which they are written
to a sink that may refuse the later ones.
-/

namespace Lox

/-- What the grammar asked for at a place where the text has something else. -/
inductive Expected where
  | className | superclassName | classBodyStart | classBodyEnd
  | functionName | functionParams | functionBody
  | methodName | methodParams | methodBody
  | parameterName | paramsEnd
  | variableName | variableEnd
  | valueEnd | returnEnd | expressionEnd
  | ifStart | ifEnd | whileStart | whileEnd | forStart | forConditionEnd | forEnd
  | includePath | includeEnd | blockEnd
  | propertyName | argumentsEnd | superDot | superMethod | groupingEnd | expression
deriving DecidableEq, Repr

def Expected.text : Expected → String
  | className => "class name"
  | superclassName => "superclass name"
  | classBodyStart => "'\x7b' before class body"
  | classBodyEnd => "'\x7d' after class body"
  | functionName => "function name"
  | functionParams => "'(' after function name"
  | functionBody => "'\x7b' before function body"
  | methodName => "method name"
  | methodParams => "'(' after method name"
  | methodBody => "'\x7b' before method body"
  | parameterName => "parameter name"
  | paramsEnd => "')' after parameters"
  | variableName => "variable name"
  | variableEnd => "';' after variable declaration"
  | valueEnd => "';' after value"
  | returnEnd => "';' after return value"
  | expressionEnd => "';' after expression"
  | ifStart => "'(' after 'if'"
  | ifEnd => "')' after if condition"
  | whileStart => "'(' after 'while'"
  | whileEnd => "')' after condition"
  | forStart => "'(' after 'for'"
  | forConditionEnd => "';' after loop condition"
  | forEnd => "')' after for clauses"
  | includePath => "include path"
  | includeEnd => "';' after include path"
  | blockEnd => "'\x7d' after block"
  | propertyName => "property name after '.'"
  | argumentsEnd => "')' after arguments"
  | superDot => "'.' after 'super'"
  | superMethod => "superclass method name"
  | groupingEnd => "')' after expression"
  | expression => "expression"

/-- What is wrong with a text that is not a program. -/
inductive StaticFault where
  | unexpectedCharacter
  | unterminatedString
  | expected (what : Expected)
  | tooManyParameters
  | tooManyArguments
  | invalidAssignmentTarget
  | ownInitializer
  | topLevelReturn
  | thisOutsideClass
  | superOutsideClass
  | superWithoutSuperclass
  | inheritsFromItself
  | duplicateParameter (name : String)
deriving DecidableEq, Repr

def StaticFault.message : StaticFault → String
  | unexpectedCharacter => "Unexpected character."
  | unterminatedString => "Unterminated string."
  | expected what => "Expect " ++ what.text ++ "."
  | tooManyParameters => "Can't have more than 255 parameters."
  | tooManyArguments => "Can't have more than 255 arguments."
  | invalidAssignmentTarget => "Invalid assignment target."
  | ownInitializer => "Can't read local variable in its own initializer."
  | topLevelReturn => "Can't return from top-level code."
  | thisOutsideClass => "Can't use 'this' outside of a class."
  | superOutsideClass => "Can't use 'super' outside of a class."
  | superWithoutSuperclass => "Can't use 'super' in a class with no superclass."
  | inheritsFromItself => "A class can't inherit from itself."
  | duplicateParameter name => "Duplicate parameter '" ++ name ++ "'."

/-- What goes wrong while a program runs. -/
inductive RuntimeFault where
  | undefinedVariable (name : String)
  | operandsNotNumbers
  | operandsNotAddable
  | operandNotNumber
  | unknownBinaryOperator (operator : String)
  | unknownUnaryOperator (operator : String)
  | notCallable
  | wrongArgumentCount (wanted given : Nat)
  | stackOverflow
  | noProperties
  | noFields
  | undefinedProperty (name className : String)
  | undefinedSuperProperty (name className : String)
  | superMisplaced
  | superclassNotClass (name : String)
  | unreadableInclude (path : String) (failure : Failure)
  | unwritableOutput (detail : String)
  | exitCodeNotNumber
  | clockBeforeEpoch
deriving DecidableEq, Repr

def RuntimeFault.message : RuntimeFault → String
  | undefinedVariable name => "Undefined variable '" ++ name ++ "'."
  | operandsNotNumbers => "Operands must be numbers."
  | operandsNotAddable => "Operands must be two numbers or two strings."
  | operandNotNumber => "Operand must be a number."
  | unknownBinaryOperator operator => "Unknown binary operator '" ++ operator ++ "'."
  | unknownUnaryOperator operator => "Unknown unary operator '" ++ operator ++ "'."
  | notCallable => "Can only call functions and classes."
  | wrongArgumentCount wanted given =>
    "Expected " ++ toString wanted ++ " arguments but got " ++ toString given ++ "."
  | stackOverflow => "Stack overflow."
  | noProperties => "Only instances have properties."
  | noFields => "Only instances have fields."
  | undefinedProperty name className =>
    "Undefined property '" ++ name ++ "' on " ++ className ++ " instance."
  | undefinedSuperProperty name className =>
    "Undefined property '" ++ name ++ "' on superclass " ++ className ++ "."
  | superMisplaced => "Can't use 'super' here."
  | superclassNotClass name => "Superclass must be a class, but '" ++ name ++ "' is not."
  | unreadableInclude path failure => "Could not read '" ++ path ++ "': " ++ failure.detail ++ "."
  | unwritableOutput detail => "Unable to write output: " ++ detail ++ "."
  | exitCodeNotNumber => "Exit code must be a number."
  | clockBeforeEpoch => "The system clock is set to a time before 1970-01-01T00:00:00Z."

/-- Where in its line a static fault was found. -/
inductive Place where
  | unspecified
  | atEnd
  | at (lexeme : String)
deriving DecidableEq, Repr

def Place.text : Place → String
  | unspecified => ""
  | atEnd => " at end"
  | .at lexeme => " at '" ++ lexeme ++ "'"

/--
A diagnostic.  Line 0 of a runtime error stands for a line not yet known; the innermost call
that the error passes through supplies its own.
-/
inductive Error where
  | static (line : Nat) (place : Place) (fault : StaticFault)
  | runtime (line : Nat) (fault : RuntimeFault)
  | inclusion (line : Nat) (path : String) (causes : List Error)
  | io (failure : Failure)
deriving Repr

namespace Error

/-- A fault of single characters, which has a line but no token. -/
def lexical (line : Nat) (fault : StaticFault) : Error := static line .unspecified fault

/-- A fault found at a token. -/
def staticAt (token : Token) (fault : StaticFault) : Error :=
  static token.line (if token.kind = .eof then .atEnd else .at token.lexeme) fault

def runtimeAt (token : Token) (fault : RuntimeFault) : Error := runtime token.line fault

/-- A fault of a native function or of the output, which does not know where it is asked from. -/
def unplaced (fault : RuntimeFault) : Error := runtime 0 fault

def isStatic : Error → Bool
  | static .. => true
  | _ => false

def line? : Error → Option Nat
  | static line .. => some line
  | runtime line _ => some line
  | inclusion line .. => some line
  | io _ => none

/-- The bare message, without lines and nested diagnostics. -/
def message : Error → String
  | static _ _ fault => fault.message
  | runtime _ fault => fault.message
  | inclusion .. => "Could not include file."
  | io failure => failure.report

mutual
/-- The pieces of the full rendering, in the order in which they are written. -/
def pieces : Error → List String
  | static line place fault =>
    ["[line ", toString line, "] Error", place.text, ": ", fault.message]
  | runtime line fault => [fault.message, "\n[line ", toString line, "]"]
  | inclusion line path causes =>
    [causesText causes, "Could not include '", path, "'.\n[line ", toString line, "]"]
  | io failure => [failure.report]

/-- The renderings of nested diagnostics, each on lines of its own. -/
def causesText : List Error → String
  | [] => ""
  | cause :: causes => String.join (pieces cause) ++ "\n" ++ causesText causes
end

/-- The full rendering. -/
def text (error : Error) : String := String.join error.pieces

/-- A runtime error without a line takes the given one; every other error is left alone. -/
def withLineIfMissing (line : Nat) : Error → Error
  | runtime 0 fault => runtime line fault
  | error => error

@[simp] theorem withLineIfMissing_unplaced (line : Nat) (fault : RuntimeFault) :
    withLineIfMissing line (unplaced fault) = runtime line fault := rfl

theorem withLineIfMissing_of_line {line known : Nat} {fault : RuntimeFault} (h : known ≠ 0) :
    withLineIfMissing line (runtime known fault) = runtime known fault := by
  cases known with
  | zero => contradiction
  | succ n => rfl

end Error

end Lox
