import CantonSigner.Lib.Sha256
import CantonSigner.Model.TopologyDecode
import CantonSigner.Model.Base

/-!
# A device to run the model on

Concrete runs of the model need a device: `testDevice` hashes with SHA-256 and
gives fixed answers where the real one uses its secrets.
-/

namespace CantonSigner

open ByteCodec

/-- A device with enough stack, zeroed heap and a fixed key. -/
def testDevice : Device where
  sha := Sha256.sha256
  length_sha := Sha256.length_sha256
  hasherAfterFinal := id
  stackHasRoom := fun _ => true
  heapAfter := fun _ => List.replicate 8 0
  maxTransactionLen := 12 * 1024
  screenSizeWallet := true
  appVersion := [1, 0, 0]
  appName := str "Canton"
  derivePoint := fun _ => .ok (List.replicate 65 7, List.replicate 32 9)
  signHash := fun _ _ => some (List.replicate 64 1)
  signWithAttestationKey := fun _ => List.replicate 64 2
  decodeTopologyTransaction := decodeTopologyMessage

end CantonSigner
