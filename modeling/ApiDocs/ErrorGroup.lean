import ApiDocs.Node
/-!
# Error groups

The error codes that one exception carries, under the name of a group and a status code.
-/
namespace ApiDocs

structure ErrorCode where
  code : String
  name : String
  messageKey : String
  message : String
  deriving DecidableEq, Repr

namespace ErrorCode

def toJson (c : ErrorCode) : Json :=
  .obj [("code", .str c.code), ("name", .str c.name), ("messageKey", .str c.messageKey),
    ("message", .str c.message)]

def ofNode (n : Node) : Reading ErrorCode := do
  let r ← Record.ofNode ["code", "name", "messageKey", "message"] n
  return {
    code := ← r.required "code" Reading.text
    name := ← r.required "name" Reading.text
    messageKey := ← r.required "messageKey" Reading.text
    message := ← r.required "message" Reading.text }

end ErrorCode

structure ErrorGroup where
  group : String
  exception : String
  status : Nat
  codes : List ErrorCode
  deriving DecidableEq, Repr

namespace ErrorGroup

/-- Status codes have sixteen bits. -/
def statusBound : Nat := Nat.pow 2 16

def toJson (g : ErrorGroup) : Json :=
  .obj [("group", .str g.group), ("exception", .str g.exception), ("status", .int g.status),
    ("codes", .list (g.codes.map ErrorCode.toJson))]

def ofNode (n : Node) : Reading ErrorGroup := do
  let r ← Record.ofNode ["group", "exception", "status", "codes"] n
  return {
    group := ← r.required "group" Reading.text
    exception := ← r.required "exception" Reading.text
    status := ← r.required "status" (Reading.natBelow statusBound)
    codes := ← r.listOrEmpty "codes" ErrorCode.ofNode }

end ErrorGroup

end ApiDocs
