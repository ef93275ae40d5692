/-
Module: PatchShelf.Settings.Homes
Purpose: Paths that begin with the home directory of an account.
Main exports:
  Homes, Homes.find?, Homes.expand
-/
import PatchShelf.Dictionary
import PatchShelf.Failure
import PatchShelf.Path

/-!
A relative path whose first component begins with a tilde begins in a home
directory: that of the user if nothing follows the tilde, else that of the
account with the name that follows.
-/

namespace PatchShelf

/-- The home directories of the user and of the accounts of a machine. -/
structure Homes where
  own : Text
  accounts : Dictionary Text Text
deriving Repr, DecidableEq

namespace Homes

/-- The home directory that is meant by what follows a tilde. -/
def find? (homes : Homes) (account : Text) : Except Fault Text :=
  if account = [] then .ok homes.own
  else if account.holds '\x00' then .error .embeddedNull
  else
    match homes.accounts.get? account with
    | some home => .ok home
    | none => .error .unknownHome

/-- A path with its home directory written out. -/
def expand (homes : Homes) (path : Path) : Except Fault Path :=
  match path.anchor, path.parts with
  | .relative, (.char '~' :: account) :: rest => do
    let home ← homes.find? account
    pure (Path.ofText home / ⟨.relative, rest⟩)
  | _, _ => .ok path

end Homes

end PatchShelf
