import SealedDrive.Error

/-!
The salted key pass: the only secret that a restored session needs to unlock its keys. It is
opaque octets, stored as base64.
-/

namespace SealedDrive

structure KeyPass where
  bytes : Bytes
  deriving DecidableEq, Repr

namespace KeyPass

def ofBase64 (text : String) : Except CryptoError KeyPass :=
  match Base64.decode text with
  | .ok bytes => .ok ⟨bytes⟩
  | .error fault => .error (.encoding fault)

def toBase64 (keyPass : KeyPass) : String := Base64.encode keyPass.bytes

def isEmpty (keyPass : KeyPass) : Bool := keyPass.bytes.isEmpty

/-- The text shown for a key pass tells its length only. -/
def shown (keyPass : KeyPass) : String :=
  "SaltedKeyPass(<" ++ toString keyPass.bytes.length ++ " bytes>)"

end KeyPass
end SealedDrive
