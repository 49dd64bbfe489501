import Offload.Bytes
import Offload.Json.Decode
import Offload.Text

/-!
Host objects: scalars and arrays of fixed-size elements, named by handles.
-/

namespace Offload

inductive Element
  | byte
  | char
  | short
  | int
  | float
  | long
  | double
  deriving DecidableEq, Repr

namespace Element

def all : List Element :=
  [.byte, .char, .short, .int, .float, .long, .double]

def name : Element → String
  | .byte => "Byte"
  | .char => "Char"
  | .short => "Short"
  | .int => "Int"
  | .float => "Float"
  | .long => "Long"
  | .double => "Double"

def size : Element → Nat
  | .byte => 1
  | .char | .short => 2
  | .int | .float => 4
  | .long | .double => 8

def toJson (e : Element) : Json :=
  .text e.name

def ofJson? : Json → Option Element :=
  Json.choice? name all

theorem size_pos (e : Element) : 0 < e.size := by
  cases e <;> decide

end Element

inductive ObjectKind
  | scalar
  | array (element : Element)
  deriving DecidableEq, Repr

namespace ObjectKind

def element? : ObjectKind → Option Element
  | .scalar => none
  | .array e => some e

def describe : ObjectKind → String
  | .scalar => "Scalar"
  | .array e => Text.application "Array" [e.name]

def toJson : ObjectKind → Json
  | .scalar => .text "Scalar"
  | .array e => .tagged "Array" e.toJson

def ofJson? (j : Json) : Option ObjectKind := do
  match ← j.case? with
  | ("Scalar", none) | ("Scalar", some .null) => some .scalar
  | ("Array", some content) => (Element.ofJson? content).map .array
  | _ => none

end ObjectKind

/-- The key of a registered object; keys count from 1. -/
structure Handle where
  id : Nat
  deriving DecidableEq, Repr

namespace Handle

def label (h : Handle) : String :=
  s!"obj{h.id}"

def describe (h : Handle) : String :=
  Text.application "ObjectHandle" [toString h.id]

def toJson (h : Handle) : Json :=
  .natural h.id

def ofJson? (j : Json) : Option Handle :=
  (j.natural? wordLimit).map Handle.mk

end Handle

/-- A registered object as its users hold it; the bytes stay with the registry. -/
structure HostObject where
  handle : Handle
  kind : ObjectKind
  deriving DecidableEq, Repr

namespace HostObject

def isScalar (o : HostObject) : Bool :=
  o.kind = .scalar

def describe (o : HostObject) (length : Nat) : String :=
  Text.record "HostObject"
    [("handle", o.handle.describe), ("kind", o.kind.describe), ("bytes", toString length)]

end HostObject
end Offload
