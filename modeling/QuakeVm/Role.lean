/-!
# Roles

A host runs up to two programs at once, one for the server and one for the client. The role of a
program is also the owner tag of everything it opens.
-/

namespace QuakeVm

/-- The role of a program. -/
inductive Role where
  | server
  | client
  deriving Repr, DecidableEq

/-- The name of a role in messages. -/
def Role.name : Role → String
  | .server => "server"
  | .client => "client"

/-- The other role. -/
def Role.other : Role → Role
  | .server => .client
  | .client => .server

end QuakeVm
