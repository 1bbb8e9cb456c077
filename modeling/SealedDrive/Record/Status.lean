import SealedDrive.Json.Form

/-!
Numeric codes of the server. A code that is not known is kept, so that a newer server never breaks
a listing; only its label says that it is unknown.
-/

namespace SealedDrive

/-- What a code is about. -/
inductive StatusKind where
  | addressType
  | addressStatus
  | shareType
  | shareState
  | shareFlags
  | volumeState
  deriving DecidableEq, Repr

def StatusKind.ofName? : String → Option StatusKind
  | "address_type" => some .addressType
  | "address_status" => some .addressStatus
  | "share_type" => some .shareType
  | "share_state" => some .shareState
  | "share_flags" => some .shareFlags
  | "volume_state" => some .volumeState
  | _ => none

/-- The known codes with their labels. -/
def StatusKind.labels : StatusKind → List (UInt8 × String)
  | .addressType =>
    [(1, "original"), (2, "alias"), (3, "custom"), (4, "premium"), (5, "external")]
  | .addressStatus => [(0, "disabled"), (1, "enabled"), (2, "deleting")]
  | .shareType => [(1, "main"), (2, "standard"), (3, "device")]
  | .shareState => [(1, "active"), (2, "deleted")]
  | .shareFlags => [(0, "none"), (1, "primary")]
  | .volumeState => [(1, "active"), (3, "locked")]

/-- A code of one kind. -/
structure Status (kind : StatusKind) where
  code : UInt8
  deriving DecidableEq, Repr

namespace Status

def label {kind : StatusKind} (status : Status kind) : String :=
  match kind.labels.lookup status.code with
  | some label => label
  | none => "Unknown (" ++ toString status.code.toNat ++ ")"

instance {kind : StatusKind} : JsonForm (Status kind) where
  toJson status := toJson status.code
  ofJson? j := (ofJson? j).map Status.mk

end Status

abbrev AddressType := Status .addressType
abbrev AddressStatus := Status .addressStatus
abbrev ShareType := Status .shareType
abbrev ShareState := Status .shareState
abbrev ShareFlags := Status .shareFlags
abbrev VolumeState := Status .volumeState

namespace AddressType
def primary : AddressType := ⟨1⟩
def secondary : AddressType := ⟨2⟩
end AddressType

namespace AddressStatus
def disabled : AddressStatus := ⟨0⟩
def enabled : AddressStatus := ⟨1⟩
end AddressStatus

namespace ShareType
def main : ShareType := ⟨1⟩
def standard : ShareType := ⟨2⟩
end ShareType

namespace ShareState
def active : ShareState := ⟨1⟩
def deleted : ShareState := ⟨2⟩
end ShareState

namespace ShareFlags
def none : ShareFlags := ⟨0⟩
def primary : ShareFlags := ⟨1⟩
end ShareFlags

namespace VolumeState
def active : VolumeState := ⟨1⟩
end VolumeState

end SealedDrive
