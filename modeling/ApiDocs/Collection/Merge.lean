import ApiDocs.Collection.Basic
import ApiDocs.Json.Reader
import ApiDocs.Json.Writer
/-!
# Keeping what users changed

A generated request takes over the values that an earlier one has under the same keys: of headers,
query parameters, path variables and the top-level fields of its body. New keys keep their generated
values, and keys that are gone stay away.
-/
namespace ApiDocs.Collection

/-- The members of a JSON text that is an object. -/
def objectMembers? (text : String) : Option (List (String × Json)) :=
  match Json.value? text with
  | some (.obj members) => some members
  | _ => none

/-- The fields with the values that earlier ones have under the same names. -/
def mergeMembers (fresh old : List (String × Json)) : List (String × Json) :=
  fresh.map fun (k, v) => (k, (Pairs.get? k old).getD v)

/-- Merges the top-level fields of two bodies; none unless both are objects. -/
def mergeBody? (fresh old : String) : Option String :=
  match objectMembers? fresh, objectMembers? old with
  | some fresh, some old => some (Json.obj (mergeMembers fresh old)).pretty
  | _, _ => none

def mergeHeaders (fresh old : List HeaderEntry) : List HeaderEntry :=
  fresh.map fun h => match old.find? fun o => o.key == h.key with
    | some o => { h with value := o.value }
    | none => h

def mergeQuery (fresh old : List QueryEntry) : List QueryEntry :=
  fresh.map fun q => match old.find? fun o => o.key == q.key with
    | some o => { q with value := o.value }
    | none => q

def mergePathEntries (fresh old : List PathEntry) : List PathEntry :=
  fresh.map fun v => match old.find? fun o => o.key == v.key with
    | some o => { v with value := o.value }
    | none => v

/-- A body with the fields of an earlier one. -/
def mergeBodies (fresh : Body) (old : Option Body) : Body :=
  match old.bind fun o => mergeBody? fresh.raw o.raw with
  | some raw => { fresh with raw }
  | none => fresh

/-- A request with the values of an earlier one. -/
def mergeRequest (fresh old : Request) : Request :=
  { fresh with
    headers := mergeHeaders fresh.headers old.headers
    body := fresh.body.map fun b => mergeBodies b old.body
    url := { fresh.url with
      query := mergeQuery fresh.url.query old.url.query
      pathEntries := mergePathEntries fresh.url.pathEntries old.url.pathEntries } }

end ApiDocs.Collection
