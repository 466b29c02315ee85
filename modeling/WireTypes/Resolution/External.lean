import WireTypes.Definition.FieldType

/-!
# External names — what names from outside the tree mean

Names of the standard library and of pydantic are known by their last segment; other names keep their
module.

- `External.shortName` is the name by which a qualified name is known;
- `External.scalar?` is the type of such a name without arguments;
- `Container.named?` is what it makes of its arguments.
-/

namespace WireTypes
namespace Resolution
namespace External

/-- Modules whose names are known by their last segment. -/
def knownModules : List String :=
  ["builtins", "collections", "collections.abc", "datetime", "decimal", "enum", "ipaddress",
    "pathlib", "typing", "typing_extensions", "uuid"]

/-- Splits a dotted name before its last segment. -/
def splitLast? (qualified : String) : Option (String × String) :=
  match (qualified.splitOn ".").reverse with
  | last :: first :: rest => some (".".intercalate (first :: rest).reverse, last)
  | _ => none

def isKnownModule (module : String) : Bool :=
  knownModules.contains module || (module.splitOn ".").head? == some "pydantic"

def shortName (qualified : String) : String :=
  match splitLast? qualified with
  | some (module, name) => if isKnownModule module then name else qualified
  | none => qualified

/-- The type of a name without arguments. -/
def scalar? : String → Option FieldType
  | "str" | "StrictStr" | "SecretStr" | "constr" | "ConstrainedStr" | "IPvAnyAddress" => some .str
  | "int" | "StrictInt" | "PositiveInt" | "NegativeInt" | "NonNegativeInt" | "NonPositiveInt"
  | "conint" => some .int
  | "float" | "StrictFloat" | "PositiveFloat" | "NegativeFloat" | "NonNegativeFloat"
  | "NonPositiveFloat" | "confloat" => some .float
  | "bool" | "StrictBool" => some .bool
  | "bytes" | "StrictBytes" | "conbytes" => some .bytes
  | "Decimal" | "condecimal" => some .decimal
  | "Any" | "object" | "Json" | "JsonValue" => some .any
  | "NoneType" => some .null
  | "datetime" | "AwareDatetime" | "NaiveDatetime" | "PastDatetime" | "FutureDatetime" =>
      some (.formatted .dateTime)
  | "date" | "PastDate" | "FutureDate" => some (.formatted .date)
  | "time" => some (.formatted .time)
  | "timedelta" => some (.formatted .duration)
  | "UUID" | "UUID1" | "UUID3" | "UUID4" | "UUID5" => some (.formatted .uuid)
  | "EmailStr" | "NameEmail" => some (.formatted .email)
  | "AnyUrl" | "AnyHttpUrl" | "HttpUrl" | "FileUrl" | "Url" => some (.formatted .uri)
  | "Path" | "PurePath" | "FilePath" | "DirectoryPath" | "NewPath" => some (.formatted .path)
  | "IPv4Address" => some (.formatted .ipv4)
  | "IPv6Address" => some (.formatted .ipv6)
  | "List" | "list" | "Sequence" => some (.list .any)
  | "Set" | "set" | "FrozenSet" | "frozenset" => some (.set .any)
  | "Tuple" | "tuple" => some (.tuple [.any] true)
  | "Dict" | "dict" | "Mapping" => some (.dict .str .any)
  | _ => none

end External

/-- What a generic name of the standard library makes of its arguments. -/
inductive Container
  | optional
  | union
  | list
  | set
  | tuple
  | dict
  | literal
  /-- The first argument, whatever the others say about it. -/
  | wrapper
  deriving DecidableEq, Repr

def Container.named? : String → Option Container
  | "Optional" => some .optional
  | "Union" => some .union
  | "List" | "list" | "Sequence" | "MutableSequence" | "Iterable" | "Collection" | "Deque"
  | "deque" => some .list
  | "Set" | "set" | "FrozenSet" | "frozenset" | "MutableSet" | "AbstractSet" => some .set
  | "Tuple" | "tuple" => some .tuple
  | "Dict" | "dict" | "Mapping" | "MutableMapping" | "OrderedDict" | "DefaultDict"
  | "defaultdict" => some .dict
  | "Literal" => some .literal
  | "Annotated" | "Final" | "Required" | "NotRequired" | "ReadOnly" => some .wrapper
  | _ => none

end Resolution
end WireTypes
