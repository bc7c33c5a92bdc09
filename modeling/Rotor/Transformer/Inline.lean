import Mathlib.Data.List.Sort
import Rotor.Luau.Render.Literals

/-!
Strings that are inlined at compile time: the values of `$env` (`envmacro.go`), the contents of
`$file` (`filemacro.go`) and the parts of a tagged template (`literals.go`).

The environment, the reader of files and the JSON decoder are parameters, and so are the
transformed tag and substitutions of a template.
-/

namespace Rotor.Transformer

open Luau

inductive Diagnostic where
  | rotorEnvNonLiteralArg
  | rotorEnvBadUsage
  | rotorFileNonLiteralArg
  | rotorFileBadUsage
  | rotorFileNotFound (path : Bytes)
  | rotorFileInvalidJSON (path message : Bytes)
  | rotorFileNoResolver
  deriving DecidableEq

/-! ### `$env` -/

/-- A link of a chain behind `$env` or `$file`. An argument or index is there with its cooked text
if it is like a string literal. -/
inductive ChainItem where
  | call (args : List (Option Bytes))
  | propertyAccess (name : Bytes)
  | elementAccess (index : Option Bytes)
  /-- A call of a property or of an element. -/
  | memberCall

def envValueExpression (lookup : Bytes → Option Bytes) (name : Bytes) : Node :=
  match lookup name with
  | some value => .stringLiteral value
  | none => .nilLiteral

/-- The value of the first link of a chain on `$env`. -/
def interceptEnvChain (lookup : Bytes → Option Bytes) : ChainItem → Except Diagnostic Node
  | .call [some name] => .ok (envValueExpression lookup name)
  | .call [some name, fallback] =>
    match lookup name, fallback with
    | some value, _ => .ok (.stringLiteral value)
    | none, some fallback => .ok (.stringLiteral fallback)
    | none, none => .error .rotorEnvNonLiteralArg
  | .call [none] | .call [none, _] => .error .rotorEnvNonLiteralArg
  | .call _ => .error .rotorEnvBadUsage
  | .propertyAccess name => .ok (envValueExpression lookup name)
  | .elementAccess (some name) => .ok (envValueExpression lookup name)
  | .elementAccess none => .error .rotorEnvNonLiteralArg
  | .memberCall => .error .rotorEnvBadUsage

/-! ### `$file` -/

/-- A decoded JSON value. The digits of a number are kept, and the keys of an object are distinct
in no order. -/
inductive JsonValue where
  | object (members : List (Bytes × JsonValue))
  | array (elements : List JsonValue)
  | string (value : Bytes)
  | number (digits : Bytes)
  | bool (value : Bool)
  | null

/-- `encoding/json`: the first value of a text with what is behind it, and whether more comes. -/
structure JsonDecoder where
  decode : Bytes → Except Bytes (JsonValue × Bytes)
  more : Bytes → Bool

mutual

def jsonValueToLuau : JsonValue → Node
  | .object members =>
    let fields := (jsonMembersToLuau members).insertionSort fun field other => field.1 ≤ other.1
    .map (fields.map fun (key, value) => .mapField (.stringLiteral key) value)
  | .array elements => .array (jsonElementsToLuau elements)
  | .string value => .stringLiteral value
  | .number digits => .numberLiteral digits
  | .bool true => .trueLiteral
  | .bool false => .falseLiteral
  | .null => .nilLiteral

def jsonMembersToLuau : List (Bytes × JsonValue) → List (Bytes × Node)
  | [] => []
  | (_, .null) :: members => jsonMembersToLuau members
  | (key, member) :: members => (key, jsonValueToLuau member) :: jsonMembersToLuau members

def jsonElementsToLuau : List JsonValue → List Node
  | [] => []
  | element :: elements => jsonValueToLuau element :: jsonElementsToLuau elements

end

def jsonBytesToLuau (decoder : JsonDecoder) (data : Bytes) : Except Bytes Node :=
  match decoder.decode data with
  | .error message => .error message
  | .ok (value, rest) =>
    if decoder.more rest then
      match decoder.decode rest with
      | .ok _ => .error (str "unexpected trailing JSON value")
      | .error _ => .ok (jsonValueToLuau value)
    else .ok (jsonValueToLuau value)

def lowerByte (c : UInt8) : UInt8 := if 65 ≤ c && c ≤ 90 then c + 32 else c

def hasJSONSuffix (path : Bytes) : Bool :=
  5 ≤ path.length && (path.drop (path.length - 5)).map lowerByte == str ".json"

/-- `read` is the resolver for the file that has the call; it is missing outside of a project. -/
def resolveFileExpression (decoder : JsonDecoder) (read : Option (Bytes → Option Bytes))
    (path : Bytes) : Except Diagnostic Node :=
  match read with
  | none => .error .rotorFileNoResolver
  | some read =>
    match read path with
    | none => .error (.rotorFileNotFound path)
    | some data =>
      if hasJSONSuffix path then
        match jsonBytesToLuau decoder data with
        | .ok value => .ok value
        | .error message => .error (.rotorFileInvalidJSON path message)
      else .ok (.stringLiteral data)

def interceptFileChain (decoder : JsonDecoder) (read : Option (Bytes → Option Bytes)) :
    ChainItem → Except Diagnostic Node
  | .call [some path] => resolveFileExpression decoder read path
  | .call [none] => .error .rotorFileNonLiteralArg
  | _ => .error .rotorFileBadUsage

/-! ### Tagged templates -/

def convertToIndexableExpression (expression : Node) : Node :=
  if expression.isIndexableExpression then expression else .parenthesizedExpression expression

/-- `head` and `spans` are the cooked texts; a template without substitutions has no spans. -/
def transformTaggedTemplateExpression (tagExp : Node) (head : Bytes) (spans : List Bytes)
    (args : List Node) : Node :=
  let stringParts := (head :: spans).map .stringLiteral
  .callExpression (convertToIndexableExpression tagExp) (.array stringParts :: args)

end Rotor.Transformer
