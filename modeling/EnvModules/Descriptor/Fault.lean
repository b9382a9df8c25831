import EnvModules.Descriptor

/-!
What can be wrong with a descriptor or a version pin.
-/

namespace EnvModules

/-- The text that every descriptor and every version pin begins with. -/
def sentinel : String := "#%EnvMaster1.0"

/-- What is wrong with a line. -/
inductive LineFault where
  | unterminatedQuote
  | unmatched (keyword : String)
  | elseWithArguments
  | neverClosed
  | elseNotLast
  | missingCondition
  | takesOneArgument (condition : String)
  | takesTwoArguments
  | unknownCondition (word : String)
  | unknownMode (word : String)
  | unknownPolicy (word : String)
  | unknownStatement (keyword : String)
  | expects (keyword arguments : String)
  | badVariable (name : String)
  | badEnding (ending : String)
  | unexpectedWord (word : String)
  | expectedBinding
  deriving DecidableEq, Repr

/-- Why a text is no descriptor or no version pin. -/
inductive TextFault where
  | noSentinel
  | line (number : Nat) (fault : LineFault)
  deriving DecidableEq, Repr

def LineFault.message : LineFault → String
  | .unterminatedQuote => "unterminated quote"
  | .unmatched keyword => "'" ++ keyword ++ "' without a matching 'if'"
  | .elseWithArguments => "'else' takes no arguments"
  | .neverClosed => "'if' block is never closed with 'end'"
  | .elseNotLast => "'else' must be the last branch of an 'if' block"
  | .missingCondition => "missing condition"
  | .takesOneArgument condition => "'" ++ condition ++ "' takes exactly one argument"
  | .takesTwoArguments => "'equal' takes exactly two arguments"
  | .unknownCondition word => "unknown condition '" ++ word ++ "'"
  | .unknownMode word => Mode.unknownMessage word
  | .unknownPolicy word => Policy.unknownMessage word
  | .unknownStatement keyword => "unknown statement '" ++ keyword ++ "'"
  | .expects keyword arguments => "'" ++ keyword ++ "' expects " ++ arguments
  | .badVariable name => "'" ++ name ++ "' is not a valid variable name"
  | .badEnding ending => "'" ++ ending ++ "' is not a valid variable suffix"
  | .unexpectedWord word => "unexpected '" ++ word ++ "'"
  | .expectedBinding => "expected 'version <value>'"

def TextFault.message : TextFault → String
  | .noSentinel => "not a module file (missing '" ++ sentinel ++ "' sentinel)"
  | .line number fault => "line " ++ toString number ++ ": " ++ fault.message

end EnvModules
