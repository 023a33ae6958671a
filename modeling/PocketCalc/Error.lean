import PocketCalc.Binary64.Shortest
import PocketCalc.Text.Quoted

/-!
# Errors

Each stage of an evaluation has its own causes of failure.  `CalcError` joins them, and its
messages name the stage.
-/

namespace PocketCalc

/-- Why a text cannot be cut into tokens; positions count characters from zero. -/
inductive LexError
  /-- A character that starts no token. -/
  | unexpected (c : Char) (position : Nat)
  /-- A run of letters that is no function name, by its start. -/
  | unknownWord (word : List Char) (position : Nat)

/-- Why tokens are no expression. -/
inductive SyntaxError
  /-- There are no tokens. -/
  | empty
  /-- A parenthesis has no partner. -/
  | unmatched
  /-- A comma stands outside all parentheses. -/
  | strayComma
  /-- A binary operator stands where an operand is due; tokens count from zero. -/
  | misplaced (position : Nat)
  /-- An operand is missing before a closing parenthesis or at the end. -/
  | incomplete
deriving DecidableEq

/-- Why RPN has no value. -/
inductive EvalError
  /-- The text of a number denotes none. -/
  | badNumber (text : List Char)
  /-- An operator finds too few values. -/
  | stackEmpty (token : List Char)
  /-- A token that is neither a number nor an operation. -/
  | notOperation (token : List Char)
  /-- The number of values left at the end is not one. -/
  | leftover (count : Nat)

/-- Why a value cannot be shown. -/
inductive FormatError
  /-- The value is infinite or not a number. -/
  | notFinite (value : Float)
  /-- A rounded text does not read as a number. -/
  | unreadable (text : List Char)

/-- Why an expression cannot be evaluated, by stage. -/
inductive CalcError
  | lexical (error : LexError)
  | grammatical (error : SyntaxError)
  | evaluation (error : EvalError)
  | format (error : FormatError)

/-! ### Messages -/

def LexError.message : LexError → String
  | unexpected c position =>
    "caractère inattendu: '" ++ c.toString ++ "' (position " ++ toString position ++ ")"
  | unknownWord word position =>
    "identifiant inconnu: '" ++ String.ofList word ++ "' (position " ++ toString position ++ ")"

def SyntaxError.message : SyntaxError → String
  | empty => "expression vide"
  | unmatched => "parenthèse orpheline"
  | strayComma => "séparateur ',' hors parenthèses"
  | misplaced position => "opérateur mal placé (jeton " ++ toString position ++ ")"
  | incomplete => "expression incomplète"

def EvalError.message : EvalError → String
  | badNumber text => "nombre invalide: " ++ String.ofList (Text.quoted text)
  | stackEmpty token => "pile vide pour '" ++ String.ofList token ++ "'"
  | notOperation token => "jeton inattendu en RPN: '" ++ String.ofList token ++ "'"
  | leftover count => "expression malformée (" ++ toString count ++ " valeurs restantes)"

def FormatError.message : FormatError → String
  | notFinite value => "résultat non fini: " ++ String.ofList (Binary64.text value)
  | unreadable text => "texte décimal illisible: " ++ String.ofList (Text.quoted text)

/-- The message of the stage's error after the name of the stage. -/
def CalcError.message : CalcError → String
  | lexical error => "lexique: " ++ error.message
  | grammatical error => "syntaxe: " ++ error.message
  | evaluation error => "évaluation: " ++ error.message
  | format error => "format: " ++ error.message

end PocketCalc
