import ApiDocs.ErrorGroup
import ApiDocs.Facts
import ApiDocs.Keyed
/-!
# The error catalog

One group for every exception that carries error codes, in the order of the exceptions' names.
-/
namespace ApiDocs

/-- The groups by the name of their exception. -/
structure ErrorCatalog where
  groups : Sorted ErrorGroup

namespace ErrorCatalog

/-- The status of exceptions of which no other is known. -/
def defaultStatus : Nat := 500

/-- The exceptions that every service inherits. -/
def knownExceptions : List (String × Nat) :=
  [("UnAuthorizedException", 401), ("NotFoundException", 404),
   ("InvalidRequestParameterException", 400), ("UnavailableServerException", 504),
   ("UnknownServerException", 500)]

/-- The names of status constants. -/
def statusNames : List (String × Nat) :=
  [("OK", 200), ("CREATED", 201), ("NO_CONTENT", 204), ("BAD_REQUEST", 400),
   ("UNAUTHORIZED", 401), ("FORBIDDEN", 403), ("NOT_FOUND", 404), ("METHOD_NOT_ALLOWED", 405),
   ("CONFLICT", 409), ("UNPROCESSABLE_ENTITY", 422), ("INTERNAL_SERVER_ERROR", 500),
   ("BAD_GATEWAY", 502), ("SERVICE_UNAVAILABLE", 503), ("GATEWAY_TIMEOUT", 504)]

/-- The status of an exception: that of a known one, else of its status constant, else its status
code, else that of a known parent, else the default. -/
def statusOf (e : Facts.ExceptionFacts) : Nat :=
  (knownExceptions.lookup e.name).getD <|
    (e.statusName.bind fun n => statusNames.lookup n).getD <|
      e.status.getD <|
        (e.superclass.bind fun n => knownExceptions.lookup n).getD defaultStatus

/-- Puts a space before each capital that follows no capital; `afterUpper` tells of the character
before. -/
def spaceCapitals (afterUpper : Bool) : List Char → List Char
  | [] => []
  | c :: rest =>
    if Text.isUpper c && !afterUpper then ' ' :: c :: spaceCapitals (Text.isUpper c) rest
    else c :: spaceCapitals (Text.isUpper c) rest

/-- The readable name of an exception: `UserNotFoundException` becomes `User Not Found`. -/
def groupName (exception : String) : String :=
  let base := (Text.stripTail? "Exception" exception).getD exception
  String.ofList (spaceCapitals true base.toList)

/-- An error code with the message of its key, or the key itself without one. -/
def codeOf (messages : Keyed String) (c : Facts.ErrorCode) : ErrorCode where
  code := c.code
  name := c.name
  messageKey := c.messageKey
  message := (messages.get? c.messageKey).getD c.messageKey

def groupOf (messages : Keyed String) (e : Facts.ExceptionFacts) : ErrorGroup where
  group := groupName e.name
  exception := e.name
  status := statusOf e
  codes := e.codes.map (codeOf messages)

/-- The catalog of the exceptions that carry codes. -/
def ofExceptions (exceptions : List Facts.ExceptionFacts) (messages : Keyed String) :
    ErrorCatalog where
  groups := Sorted.ofList <|
    (exceptions.filter fun e => !e.codes.isEmpty).map fun e => (e.name, groupOf messages e)

def empty : ErrorCatalog := ⟨Sorted.empty⟩

def get? (catalog : ErrorCatalog) (exception : String) : Option ErrorGroup :=
  catalog.groups.get? exception

def toList (catalog : ErrorCatalog) : List ErrorGroup :=
  catalog.groups.entries.map (·.2)

def isEmpty (catalog : ErrorCatalog) : Bool :=
  catalog.groups.isEmpty

end ErrorCatalog

end ApiDocs
