import Mathlib.Tactic

/-! Authentication of a message by a key, over any hash of blocks. -/

namespace Simple.Lib.Hmac

variable (size : ℕ) (hash : List UInt8 → List UInt8)

def blockKey (key : List UInt8) : List UInt8 :=
  let key := if size < key.length then hash key else key
  key ++ List.replicate (size - key.length) 0

def hmac (key message : List UInt8) : List UInt8 :=
  hash ((blockKey size hash key).map (· ^^^ 0x5c) ++
    hash ((blockKey size hash key).map (· ^^^ 0x36) ++ message))

lemma blockKey_length (h : ∀ xs, (hash xs).length ≤ size) (key : List UInt8) :
    (blockKey size hash key).length = size := by
  have hlen : (if size < key.length then hash key else key).length ≤ size := by
    split_ifs with hlt
    · exact h key
    · exact Nat.le_of_not_lt hlt
  rw [blockKey, List.length_append, List.length_replicate]
  exact Nat.add_sub_cancel' hlen

end Simple.Lib.Hmac
