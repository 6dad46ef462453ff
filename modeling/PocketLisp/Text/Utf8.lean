/-!
# Decoding bytes

Source files are UTF-8. Decoding is strict: no overlong forms, no surrogates, nothing above
U+10FFFF. A fault names the longest run of bytes that could still have begun a character, and at
least one byte.

* `Utf8.lead?`: how many bytes follow a first byte, and in which range the first of them must lie.
  The narrow ranges are what rules out overlong forms, surrogates and too great numbers.
* `Utf8.decode`: the characters of a byte sequence, or the first fault.
* `Text.unifyNewlines`: carriage returns, alone or before a newline, become newlines.
-/

namespace PocketLisp.Text

namespace Utf8

/-- Why bytes are no character. -/
inductive Reason where
  /-- No character begins with this byte. -/
  | badStart
  /-- A byte that cannot stand where it does. -/
  | badContinuation
  /-- The bytes end within a character. -/
  | cutOff
  deriving DecidableEq

/-- A place where decoding fails: `count` bytes from `pos` on, of which the first is `first`. -/
structure Fault where
  first : UInt8
  pos : Nat
  count : Nat
  reason : Reason
  deriving DecidableEq

/-- What a first byte says about a character. -/
structure Lead where
  /-- The number of bytes that follow. -/
  follow : Nat
  /-- The least second byte. -/
  low : Nat
  /-- The greatest second byte. -/
  high : Nat
  /-- The leading bits of the code point. -/
  bits : Nat

/-- What `b` says as the first byte of a character of several bytes. -/
def lead? (b : Nat) : Option Lead :=
  if b < 0xC2 then none
  else if b < 0xE0 then some ⟨1, 0x80, 0xBF, b - 0xC0⟩
  else if b = 0xE0 then some ⟨2, 0xA0, 0xBF, 0⟩
  else if b = 0xED then some ⟨2, 0x80, 0x9F, 0xD⟩
  else if b < 0xF0 then some ⟨2, 0x80, 0xBF, b - 0xE0⟩
  else if b = 0xF0 then some ⟨3, 0x90, 0xBF, 0⟩
  else if b < 0xF4 then some ⟨3, 0x80, 0xBF, b - 0xF0⟩
  else if b = 0xF4 then some ⟨3, 0x80, 0x8F, 4⟩
  else none

/-- Takes `n` more bytes onto the code point `code`, of which the first lies between `low` and
`high`. Gives the code point and the rest, or the number of bytes accepted and the reason. -/
def takeFollowing (low high : Nat) : Nat → Nat → Nat → List UInt8 →
    Except (Nat × Reason) (Nat × List UInt8)
  | 0, code, _, bytes => .ok (code, bytes)
  | _ + 1, _, taken, [] => .error (taken, .cutOff)
  | n + 1, code, taken, b :: bytes =>
    if low ≤ b.toNat ∧ b.toNat ≤ high then
      takeFollowing 0x80 0xBF n (64 * code + (b.toNat - 0x80)) (taken + 1) bytes
    else .error (taken, .badContinuation)

theorem length_takeFollowing_le {low high n code taken code' : Nat} {bytes rest : List UInt8}
    (h : takeFollowing low high n code taken bytes = .ok (code', rest)) :
    rest.length ≤ bytes.length := by
  induction n generalizing low high code taken bytes with
  | zero => simp only [takeFollowing, Except.ok.injEq, Prod.mk.injEq] at h; simp [h.2]
  | succ n ih =>
    cases bytes with
    | nil => simp [takeFollowing] at h
    | cons b bytes =>
      rw [takeFollowing] at h
      split at h
      · exact Nat.le_succ_of_le (ih h)
      · cases h

/-- Decodes `bytes`, which stand at offset `pos`, behind the characters `done`, the latest first. -/
def decodeFrom (pos : Nat) (done : List Char) : List UInt8 → Except Fault (List Char)
  | [] => .ok done.reverse
  | b :: bytes =>
    if b.toNat < 0x80 then decodeFrom (pos + 1) (Char.ofNat b.toNat :: done) bytes
    else
      match lead? b.toNat with
      | none => .error ⟨b, pos, 1, .badStart⟩
      | some lead =>
        match _h : takeFollowing lead.low lead.high lead.follow lead.bits 1 bytes with
        | .error (count, reason) => .error ⟨b, pos, count, reason⟩
        | .ok (code, rest) => decodeFrom (pos + 1 + lead.follow) (Char.ofNat code :: done) rest
termination_by bytes => bytes.length
decreasing_by
  · simp
  · have := length_takeFollowing_le _h
    simp only [List.length_cons]
    omega

def decode (bytes : List UInt8) : Except Fault (List Char) := decodeFrom 0 [] bytes

end Utf8

/-- All ends of lines as newlines: a carriage return is one, together with a newline behind it. -/
def unifyNewlines : List Char → List Char
  | [] => []
  | '\r' :: '\n' :: cs => '\n' :: unifyNewlines cs
  | c :: cs => (if c = '\r' then '\n' else c) :: unifyNewlines cs

end PocketLisp.Text
