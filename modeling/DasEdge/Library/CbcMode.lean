import Mathlib.Data.List.Basic

/-!
# Cipher block chaining

A cipher on blocks makes one on lists of blocks: each block is mixed with the encrypted block before
it, the first one with an initial block. Blocks, cipher and mixing are arbitrary.
-/

namespace DasEdge.Library

variable {β : Type*}

/-- The encrypted blocks. -/
def cbcEncrypt (encrypt : β → β) (mix : β → β → β) : β → List β → List β
  | _, [] => []
  | iv, block :: blocks =>
    encrypt (mix block iv) :: cbcEncrypt encrypt mix (encrypt (mix block iv)) blocks

/-- The blocks that encrypted blocks are made of. -/
def cbcDecrypt (decrypt : β → β) (mix : β → β → β) : β → List β → List β
  | _, [] => []
  | iv, block :: blocks => mix (decrypt block) iv :: cbcDecrypt decrypt mix block blocks

/-- The last block is decrypted with the one before it. -/
theorem cbcDecrypt_concat (decrypt : β → β) (mix : β → β → β) (iv : β) (blocks : List β) (block : β) :
    cbcDecrypt decrypt mix iv (blocks ++ [block]) =
      cbcDecrypt decrypt mix iv blocks ++ [mix (decrypt block) (blocks.getLastD iv)] := by
  induction blocks generalizing iv with
  | nil => rfl
  | cons first blocks ih =>
    rw [List.cons_append, cbcDecrypt, ih, cbcDecrypt, List.getLastD_cons, List.cons_append]

/-- What is encrypted is decrypted again, when the cipher on blocks does this and mixing twice
undoes itself. -/
theorem cbcDecrypt_cbcEncrypt {encrypt decrypt : β → β} {mix : β → β → β}
    (hcipher : ∀ x, decrypt (encrypt x) = x)
    (hmix : ∀ x v, mix (mix x v) v = x) (iv : β) (blocks : List β) :
    cbcDecrypt decrypt mix iv (cbcEncrypt encrypt mix iv blocks) = blocks := by
  induction blocks generalizing iv with
  | nil => rfl
  | cons block blocks ih => rw [cbcEncrypt, cbcDecrypt, hcipher, hmix, ih]

end DasEdge.Library
