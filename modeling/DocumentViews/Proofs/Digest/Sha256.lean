import Mathlib
import DocumentViews.Digest.Sha256

/-!
The length of hashes. Whatever the message, its hash has thirty-two bytes, and
sixty-four digits in hexadecimal form.
-/

namespace DocumentViews.Sha256

theorem length_bytesOf (count number : Nat) : (bytesOf count number).length = count := by
  induction count with
  | zero => rfl
  | succ count ih =>
    calc (bytesOf (count + 1) number).length = (bytesOf count number).length + 1 := rfl
      _ = count + 1 := by rw [ih]

theorem length_hash (message : List UInt8) : (hash message).length = 32 := by
  simp [hash, State.words, length_bytesOf]

theorem length_hexDigits (bytes : List UInt8) : (hexDigits bytes).length = bytes.length * 2 := by
  simp [hexDigits, List.length_flatMap]

theorem length_hexHash (text : String) : (hexHash text).toList.length = 64 := by
  rw [hexHash, String.toList_ofList, length_hexDigits, length_hash]

end DocumentViews.Sha256
