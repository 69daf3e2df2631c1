import ApiDocs.Digest
/-!
# Stable ids

An id that depends on nothing but the texts it is made of, so that the same endpoint, folder or
collection has the same id in every run: the name-based identifier (version 5) of the texts, one
after the other, in the namespace of this program.
-/
namespace ApiDocs

namespace StableId

/-- The namespace of all ids. -/
def namespaceBytes : List UInt8 :=
  [0x6f, 0x1e, 0x9c, 0x2a, 0x43, 0xb8, 0x4d, 0x5e, 0x9a, 0x07, 0x1c, 0x3d, 0x5e, 0x7f, 0x8a, 0x9b]

/-- Marks a byte list as version 5 of the standard variant, and keeps sixteen bytes. -/
def mark (bytes : List UInt8) : List UInt8 :=
  (bytes.take 16).zipIdx.map fun (b, i) =>
    if i = 6 then (b &&& 0x0F) ||| 0x50
    else if i = 8 then (b &&& 0x3F) ||| 0x80
    else b

/-- Two hexadecimal digits a byte, with a dash before the bytes 4, 6, 8 and 10. -/
def render (bytes : List UInt8) : String :=
  String.ofList <| bytes.zipIdx.flatMap fun (b, i) =>
    let digits := [Nat.digitChar (b.toNat / 16), Nat.digitChar (b.toNat % 16)]
    if i = 4 ∨ i = 6 ∨ i = 8 ∨ i = 10 then '-' :: digits else digits

/-- The id of one text. -/
def ofText (text : String) : String :=
  render (mark (Digest.sha1 (namespaceBytes ++ text.toUTF8.toList)))

end StableId

/-- The id of some texts, taken one after the other. -/
def stableId (parts : List String) : String :=
  StableId.ofText (String.join parts)

end ApiDocs
