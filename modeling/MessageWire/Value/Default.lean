import MessageWire.Schema.Description
import MessageWire.Value.Basic

/-!
# Default values

Every field starts with its zero value. A schema that embeds itself by value has no default: on the
path from the message down to itself there is no array that may be empty.

* `Kind.default`: the zero value of a kind, given that of the nested messages;
* `Catalog.defaultBelow`: the zero values of a message reached on a path of distinct schemas;
* `Catalog.new`, `Catalog.defaultFor`: default messages, and default values of any kind.
-/

namespace MessageWire

variable {n : Nat}

/-- The zero value of a kind. A fixed extent takes its number of zero elements, and asks for one
only if there is any; a counted extent takes none. -/
def Kind.default (nested : Fin n → Except SchemaError (Value n)) :
    Kind n → Except SchemaError (Value n)
  | .primitive p => .ok (.scalar (.zero p))
  | .message s => nested s
  | .array element (.fixed size) =>
    if size = 0 then .ok (.array [])
    else return .array (List.replicate size.toNat (← element.default nested))
  | .array _ (.counted _) => .ok (.array [])

namespace Catalog

variable (G : Catalog n)

/-- The zero values of the fields of `s`, the schemas of `path` being under construction. -/
def defaultBelow (path : List (Fin n)) (s : Fin n) : Except SchemaError (List (Value n)) :=
  (G s).fields.mapM fun f => f.kind.default fun t =>
    if t ∈ path then .error (.recursiveDefault (G t).name)
    else return .message t (← defaultBelow (t :: path) t)
termination_by unseen path
decreasing_by exact unseen_cons_lt ‹_›

/-- The default message of a schema. -/
def new (s : Fin n) : Except SchemaError (Instance n) :=
  return ⟨s, ← G.defaultBelow [s] s⟩

/-- The default value of a kind. -/
def defaultFor (kind : Kind n) : Except SchemaError (Value n) :=
  kind.default fun s => return .message s (← G.defaultBelow [s] s)

end Catalog

end MessageWire
