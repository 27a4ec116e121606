import Scriptor.Position
import Scriptor.Text.Shown

namespace Scriptor

inductive Cause where
  | unrecognisedToken (token : String)
  | unexpectedToken (token : String)
  | unexpectedTokenDetailed (token message : String)
  | numberParseError (token : String)
  | alreadyDeclared (name : String)
  | notDeclared (name : String)
  | expectedNumber (found : String)
  | expectedBoolean (found : String)
  | expectedInteger (found : String)
  | expectedNumberOrString (found : String)
  | expectedArray (found : String)
  | expectedDictionary (found : String)
  | expectedArrayOrDictionary (found : String)
  | expectedFunction (found : String)
  | expectedValue
  | operandTypeMismatch (left right : String)
  | typeMatchError (expected received : String)
  | argumentTypeMatchError (expected received : String)
  | unexpectedArguments (expected received : Nat)
  | missingArguments (expected received : Nat)
  | returnTypeMismatch (expected received : String)
  | missingReturnValue (expected : String)
  | notAssignable (name : String)
  | unknownMethod (name type : String)
  | methodAsValue (name : String)
  | mismatchedBlockName (opened closed : String)
  | returnOutsideFunction
  | breakOutsideLoop
  deriving DecidableEq

inductive Family where
  | form
  | declaration
  | resolution
  | typing
  | structural
  deriving DecidableEq

def Family.text : Family → String
  | .form => "SyntaxError"
  | .declaration => "DeclarationError"
  | .resolution => "ResolutionError"
  | .typing => "TypeError"
  | .structural => "StructuralError"

namespace Cause

def family : Cause → Family
  | .unrecognisedToken _ | .unexpectedToken _ | .unexpectedTokenDetailed _ _
  | .numberParseError _ => .form
  | .alreadyDeclared _ => .declaration
  | .notDeclared _ => .resolution
  | .mismatchedBlockName _ _ | .returnOutsideFunction | .breakOutsideLoop => .structural
  | _ => .typing

def name : Cause → String
  | .unrecognisedToken _ => "UnrecognisedToken"
  | .unexpectedToken _ => "UnexpectedToken"
  | .unexpectedTokenDetailed _ _ => "UnexpectedTokenDetailed"
  | .numberParseError _ => "NumberParseError"
  | .alreadyDeclared _ => "AlreadyDeclared"
  | .notDeclared _ => "NotDeclared"
  | .expectedNumber _ => "ExpectedNumber"
  | .expectedBoolean _ => "ExpectedBoolean"
  | .expectedInteger _ => "ExpectedInteger"
  | .expectedNumberOrString _ => "ExpectedNumberOrString"
  | .expectedArray _ => "ExpectedArray"
  | .expectedDictionary _ => "ExpectedDictionary"
  | .expectedArrayOrDictionary _ => "ExpectedArrayOrDictionary"
  | .expectedFunction _ => "ExpectedFunction"
  | .expectedValue => "ExpectedValue"
  | .operandTypeMismatch _ _ => "OperandTypeMismatch"
  | .typeMatchError _ _ => "TypeMatchError"
  | .argumentTypeMatchError _ _ => "ArgumentTypeMatchError"
  | .unexpectedArguments _ _ => "UnexpectedArguments"
  | .missingArguments _ _ => "MissingArguments"
  | .returnTypeMismatch _ _ => "ReturnTypeMismatch"
  | .missingReturnValue _ => "MissingReturnValue"
  | .notAssignable _ => "NotAssignable"
  | .unknownMethod _ _ => "UnknownMethod"
  | .methodAsValue _ => "MethodAsValue"
  | .mismatchedBlockName _ _ => "MismatchedBlockName"
  | .returnOutsideFunction => "ReturnOutsideFunction"
  | .breakOutsideLoop => "BreakOutsideLoop"

def message : Cause → String
  | .unrecognisedToken token => "Unrecognised token: " ++ Text.shown token
  | .unexpectedToken token => "Unexpected token: " ++ Text.shown token
  | .unexpectedTokenDetailed token message =>
    "Unexpected token (" ++ message ++ "): " ++ Text.shown token
  | .numberParseError token => "Error parsing number: " ++ Text.shown token
  | .alreadyDeclared name => "Identifier " ++ name ++ " already declared"
  | .notDeclared name => "Identifier " ++ name ++ " not declared"
  | .expectedNumber found => "Expected a number, found " ++ found
  | .expectedBoolean found => "Expected a boolean, found " ++ found
  | .expectedInteger found => "Expected an integer, found " ++ found
  | .expectedNumberOrString found => "Expected a string or number, found " ++ found
  | .expectedArray found => "Expected an array, found " ++ found
  | .expectedDictionary found => "Expected a dictionary, found " ++ found
  | .expectedArrayOrDictionary found => "Expected an array or a dictionary, found " ++ found
  | .expectedFunction found => "Expected a function, found " ++ found
  | .expectedValue => "Expected a value, found void"
  | .operandTypeMismatch left right =>
    "Operands must have the same type, found " ++ left ++ " and " ++ right
  | .typeMatchError expected received =>
    "Types do not match: expected " ++ expected ++ ", received " ++ received
  | .argumentTypeMatchError expected received =>
    "Argument types do not match: expected " ++ expected ++ ", received " ++ received
  | .unexpectedArguments expected received =>
    "Unexpected arguments: expected " ++ toString expected ++ ", received " ++ toString received
  | .missingArguments expected received =>
    "Missing arguments: expected " ++ toString expected ++ ", received " ++ toString received
  | .returnTypeMismatch expected received =>
    "Cannot return " ++ received ++ " from a function returning " ++ expected
  | .missingReturnValue expected => "Expected a return value of type " ++ expected
  | .notAssignable name => "Cannot assign to " ++ name
  | .unknownMethod name type => "Type " ++ type ++ " has no method " ++ name
  | .methodAsValue name => "Method " ++ name ++ " can only be called as a statement"
  | .mismatchedBlockName opened closed =>
    "Block opened as " ++ opened ++ " but closed as " ++ closed
  | .returnOutsideFunction => "Return can only appear in a function"
  | .breakOutsideLoop => "Break can only appear in a loop"

/-- A hint to the reader of the source text; most causes hint with their message. -/
def tip? : Cause → Option String
  | .unrecognisedToken _ | .expectedValue | .returnOutsideFunction | .breakOutsideLoop => none
  | .unexpectedToken token => some ("Unexpected token: `" ++ token ++ "`")
  | .unexpectedTokenDetailed token message =>
    some ("Unexpected token: `" ++ token ++ "`, " ++ message)
  | .numberParseError token => some ("Invalid number: `" ++ token ++ "`")
  | .alreadyDeclared name => some ("`" ++ name ++ "` is already visible here, pick another name")
  | .notDeclared name => some ("`" ++ name ++ "` must be assigned before it is used")
  | .unexpectedArguments expected received | .missingArguments expected received =>
    some ("Expected " ++ toString expected ++ " arguments, received " ++ toString received)
  | .mismatchedBlockName opened _ => some ("Close the block with `end " ++ opened ++ "`")
  | .unknownMethod _ _ =>
    some "Arrays have add, insert and delete; dictionaries have set and delete"
  | cause => some cause.message

end Cause

structure Error where
  cause : Cause
  position : Position
  deriving DecidableEq

def Error.message (e : Error) : String :=
  e.position.text ++ ": " ++ e.cause.message

end Scriptor
