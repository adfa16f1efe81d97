import Mathlib.Data.List.Basic

/-!
# Authenticated encryption

Encryption under a key, with a nonce and associated data. What protocols rely on are two
laws: ciphertexts open under what they were made with, and a ciphertext opens under one
key only. `transparent` satisfies both by writing everything in the clear; it is the
witness that the laws can be met.
-/

/-- A cipher: key, nonce, associated data, text. -/
structure Aead where
  encrypt : List UInt8 → List UInt8 → List UInt8 → List UInt8 → List UInt8
  decrypt : List UInt8 → List UInt8 → List UInt8 → List UInt8 → Option (List UInt8)

namespace Aead

/-- Ciphertexts open under what they were made with, and are never empty. -/
structure Correct (a : Aead) : Prop where
  decrypt_encrypt : ∀ key iv ad text, a.decrypt key iv ad (a.encrypt key iv ad text) = some text
  encrypt_ne_nil : ∀ key iv ad text, a.encrypt key iv ad text ≠ []

/-- A ciphertext opens under one key and one piece of associated data only. -/
def Committing (a : Aead) : Prop :=
  ∀ key key' iv iv' ad ad' text, (a.decrypt key iv ad text).isSome →
    (a.decrypt key' iv' ad' text).isSome → key = key' ∧ ad = ad'

/-- One encryption. -/
structure Query where
  key : List UInt8
  iv : List UInt8
  ad : List UInt8
  text : List UInt8
  deriving DecidableEq

/-- Ideal authenticated encryption: what opens is what was encrypted, under what it was encrypted
with. No ciphertext is empty. -/
structure Ideal (a : Aead) (sealed : Query → Prop) : Prop where
  decrypt_iff : ∀ key iv ad ciphertext text, a.decrypt key iv ad ciphertext = some text ↔
    sealed ⟨key, iv, ad, text⟩ ∧ a.encrypt key iv ad text = ciphertext
  encrypt_ne_nil : ∀ key iv ad text, a.encrypt key iv ad text ≠ []

/-- The cipher that opens what is in a log. -/
def logged (log : List Query) : Aead where
  encrypt _ _ _ text := 0 :: text
  decrypt key iv ad ciphertext :=
    match ciphertext with
    | [] => none
    | b :: text => if b = 0 ∧ ⟨key, iv, ad, text⟩ ∈ log then some text else none

/-- `logged` is ideal. -/
theorem logged_ideal (log : List Query) : (logged log).Ideal (· ∈ log) where
  decrypt_iff key iv ad ciphertext text := by
    cases ciphertext with
    | nil => simp [logged]
    | cons b rest =>
      rw [logged, Option.ite_none_right_eq_some, Option.some.injEq, List.cons.injEq]
      constructor
      · rintro ⟨⟨rfl, hlog⟩, rfl⟩
        exact ⟨hlog, rfl, rfl⟩
      · rintro ⟨hlog, rfl, rfl⟩
        exact ⟨⟨rfl, hlog⟩, rfl⟩
  encrypt_ne_nil key iv ad text := List.cons_ne_nil 0 text

/-- A byte string with its end marked. -/
def frame : List UInt8 → List UInt8
  | [] => [0]
  | b :: rest => 1 :: b :: frame rest

/-- The frame that a text starts with, and the rest. -/
def readFrame : List UInt8 → Option (List UInt8 × List UInt8)
  | [] => none
  | [m] => if m = 0 then some ([], []) else none
  | m :: b :: text =>
    if m = 0 then some ([], b :: text)
    else (readFrame text).map fun r => (b :: r.1, r.2)

/-- A frame is read back. -/
theorem readFrame_frame (bytes text : List UInt8) :
    readFrame (frame bytes ++ text) = some (bytes, text) := by
  induction bytes with
  | nil =>
    cases text with
    | nil => rfl
    | cons b text => rfl
  | cons b rest ih =>
    rw [frame, List.cons_append, List.cons_append, readFrame, if_neg (by decide), ih]
    rfl

/-- The cipher that writes key, associated data and text in the clear, and opens only what
names its key and its data. -/
def transparent : Aead where
  encrypt key _ ad text := frame key ++ (frame ad ++ text)
  decrypt key _ ad text := do
    let (key', rest) ← readFrame text
    let (ad', text) ← readFrame rest
    if key' = key ∧ ad' = ad then some text else none

/-- What `transparent` opens names the key and the data. -/
theorem transparent_decrypt {key iv ad text out : List UInt8}
    (h : transparent.decrypt key iv ad text = some out) :
    ∃ rest, readFrame text = some (key, rest) ∧ readFrame rest = some (ad, out) := by
  obtain ⟨⟨key', rest⟩, hkey, h⟩ := Option.bind_eq_some_iff.mp h
  obtain ⟨⟨ad', text'⟩, had, h⟩ := Option.bind_eq_some_iff.mp h
  obtain ⟨⟨rfl, rfl⟩, htext⟩ := Option.ite_none_right_eq_some.mp h
  cases htext
  exact ⟨rest, hkey, had⟩

/-- `transparent` is correct. -/
theorem transparent_correct : transparent.Correct where
  decrypt_encrypt key iv ad text := by
    simp [transparent, readFrame_frame]
  encrypt_ne_nil key iv ad text := by
    cases key with
    | nil => exact List.cons_ne_nil _ _
    | cons b rest => exact List.cons_ne_nil _ _

/-- `transparent` is committing. -/
theorem transparent_committing : transparent.Committing := by
  intro key key' iv iv' ad ad' text h h'
  obtain ⟨out, hout⟩ := Option.isSome_iff_exists.mp h
  obtain ⟨out', hout'⟩ := Option.isSome_iff_exists.mp h'
  obtain ⟨rest, hkey, had⟩ := transparent_decrypt hout
  obtain ⟨rest', hkey', had'⟩ := transparent_decrypt hout'
  cases hkey.symm.trans hkey'
  cases had.symm.trans had'
  exact ⟨rfl, rfl⟩

end Aead
