import Mathlib

/-!
# Keyed digests

The keyed digest that is made from a hash function with blocks of some length: the key fills a
block, and the message is hashed behind the block mixed with one byte and then, as a digest, behind
the block mixed with another.
-/

namespace TaskTipsCloud

namespace Hmac

/-- The key as a block: a long key is hashed, and zeros follow. -/
def blockKey (hash : List UInt8 → List UInt8) (block : ℕ) (key : List UInt8) : List UInt8 :=
  let k := if block < key.length then hash key else key
  k ++ List.replicate (block - k.length) 0

/-- The keyed digest of a message. -/
def hmac (hash : List UInt8 → List UInt8) (block : ℕ) (key message : List UInt8) : List UInt8 :=
  let k := blockKey hash block key
  hash (k.map (0x5c ^^^ ·) ++ hash (k.map (0x36 ^^^ ·) ++ message))

variable {hash : List UInt8 → List UInt8} {block : ℕ} {key : List UInt8}

/-- The key of a block fills it. -/
theorem length_blockKey (h : (hash key).length ≤ block) :
    (blockKey hash block key).length = block := by
  unfold blockKey
  split <;> simp <;> omega

/-- Two byte strings of one length are equal when no bit differs. -/
theorem foldl_or_xor_eq_zero_iff {xs ys : List UInt8} (h : xs.length = ys.length) (d : UInt8) :
    (xs.zip ys).foldl (fun d b => d ||| (b.1 ^^^ b.2)) d = 0 ↔ d = 0 ∧ xs = ys := by
  induction xs generalizing ys d with
  | nil =>
    cases ys with
    | nil => simp
    | cons y ys => cases h
  | cons x xs ih =>
    cases ys with
    | nil => cases h
    | cons y ys =>
      rw [List.zip_cons_cons, List.foldl_cons, ih (Nat.succ.inj h), UInt8.or_eq_zero_iff,
        UInt8.xor_eq_zero_iff, List.cons.injEq, and_assoc]

end Hmac

end TaskTipsCloud
