import CamelidEnterprise.Foundation.Outcome

/-!
# Camelid Enterprise — engine errors

The error type every `engine_core` function returns, and the two ways its
messages print a program string. A `String` of the source is `Str` here: the list
of its characters, so that a proof about text is a proof about lists.
-/

namespace CamelidEnterprise

/-- A `String` or `&str` of the source. -/
abbrev Str := List Char

/-- The fact as one constant, so that a membership test has no proof of its own in it. -/
instance : LawfulBEq Str := inferInstance

/-- `{name}` in a format string. -/
def display (s : Str) : String := String.ofList s

/-- A printable character between these quotes, as `{:?}` writes it. -/
def debugEscape (quote c : Char) : Str :=
  if c = quote then ['\\', quote]
  else if c = '\\' then ['\\', '\\']
  else if c = '\n' then ['\\', 'n']
  else if c = '\r' then ['\\', 'r']
  else if c = '\t' then ['\\', 't']
  else if c = '\x00' then ['\\', '0']
  else [c]

/-- `{name:?}` in a format string, for printable text. -/
def debug (s : Str) : String := String.ofList (['"'] ++ s.flatMap (debugEscape '"') ++ ['"'])

/-- `{ch:?}` of a printable character. -/
def debugChar (ch : Char) : String := String.ofList (['\''] ++ debugEscape '\'' ch ++ ['\''])

/-- `EngineError`, with the message each variant carries. -/
inductive EngineError
  | InvalidGguf (message : String)
  | UnsupportedGguf (message : String)
  | TokenizerNotAvailable
  | InvalidTokenizerMetadata (message : String)
  | UnsupportedTokenizer (message : String)
  | InvalidTensorData (message : String)
  | TensorNotFound (name : String)
  | UnsupportedTensorType (message : String)
  | ShapeMismatch (message : String)
  | UnsupportedModelArchitecture (message : String)
  | InvalidModelMetadata (message : String)
  | Io (path source : String)
deriving DecidableEq, Repr

/-- `impl Display for EngineError` -/
def EngineError.display : EngineError → String
  | .InvalidGguf msg => "invalid GGUF: " ++ msg
  | .UnsupportedGguf msg => "unsupported GGUF: " ++ msg
  | .TokenizerNotAvailable => "tokenizer metadata is not available in the loaded model"
  | .InvalidTokenizerMetadata msg => "invalid tokenizer metadata: " ++ msg
  | .UnsupportedTokenizer msg => "unsupported tokenizer: " ++ msg
  | .InvalidTensorData msg => "invalid tensor data: " ++ msg
  | .TensorNotFound name => "tensor not found: " ++ name
  | .UnsupportedTensorType msg => "unsupported tensor type: " ++ msg
  | .ShapeMismatch msg => "shape mismatch: " ++ msg
  | .UnsupportedModelArchitecture msg => "unsupported model architecture: " ++ msg
  | .InvalidModelMetadata msg => "invalid model metadata: " ++ msg
  | .Io path source => "io error on " ++ path ++ ": " ++ source

/-- The engine's `Result<T>`, with faults kept apart from errors. -/
abbrev EngineResult (α : Type) := Foundation.Outcome EngineError α

end CamelidEnterprise
