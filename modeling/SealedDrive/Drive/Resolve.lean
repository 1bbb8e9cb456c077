import SealedDrive.Drive.Link
import SealedDrive.Together

/-!
Finding a link by its path. Every name is compared with the decrypted names of the children of the
current folder; the first child of that name, in listing order, is the next folder.
-/

namespace SealedDrive

variable {τ : Type}

namespace Link

/-- Walk down the names from a link; `walked` are the names that led to it. -/
def walk (share : Share) (all : Bool) (walked : List String) (current : Link) :
    List String → ExceptT DriveError (Dialogue Arena) Link
  | [] => return current
  | segment :: rest => do
    if !current.isFolder then
      throw (.notAFolder (current.path (← Share.arenaNow)))
    let children ← current.children share all
    match children.find? (·.name = segment) with
    | some child => walk share all (walked ++ [segment]) child rest
    | none => throw (.fileNotFound (Path.join (walked ++ [segment])))

/-- List the children of a folder under the session's time bound. -/
def listChildren (service : Service τ) (share : Share) (link : Link) (all : Bool) :
    Activity (Arena × τ) (Except DriveError (List Link)) :=
  share.session.bounded ((link.children share all).run.carry service)

/-- Resolve a path from a link. The whole walk is under the session's time bound. -/
def resolve (service : Service τ) (share : Share) (link : Link) (path : String) (all : Bool) :
    Activity (Arena × τ) (Except DriveError Link) :=
  match Path.segments path with
  | .error error => .done (.error error)
  | .ok segments =>
    share.session.bounded ((walk share all [] link segments).run.carry service)

end Link

namespace Share

/-- Resolve a path from the root as it is when the walk begins. -/
def resolve (service : Service τ) (share : Share) (path : String) (all : Bool) :
    Activity (Arena × τ) (Except DriveError Link) :=
  .read fun s => Link.resolve service share s.1.rootLink path all

/-- Resolve several paths side by side. -/
def resolveMany [Crowded τ] (service : Service τ) (share : Share) (paths : List String)
    (all : Bool) : Activity (Arena × τ) (List (Except DriveError Link)) :=
  Together.all (paths.map fun path => share.resolve service path all)

end Share
end SealedDrive
