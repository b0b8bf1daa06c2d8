import Mathlib.Data.String.Basic
import Mathlib.Data.List.Lex

/-! # The order of bytes

In UTF-8 the first byte of a character tells how long its encoding is, longer encodings start with
larger bytes, and the bytes of one length hold the digits of the code point to base 64, the highest
first. So texts stand in the same order by their bytes as by their characters
(`utf8_lt_utf8_iff`), which is the lexicographic order of their code points
(`precedes_codePoints_iff`). -/

namespace CallScript.Text

/-- The bytes of a text. -/
def utf8 (text : String) : List UInt8 :=
  text.toUTF8.data.toList

theorem utf8_eq (text : String) : utf8 text = text.toList.flatMap String.utf8EncodeChar := by
  rw [utf8, String.toUTF8, ← String.utf8Encode_toList, List.utf8Encode, List.toList_data_toByteArray]

/-- The first byte in which the encodings of two characters differ decides, whatever follows them. -/
theorem utf8EncodeChar_append_lt {c d : Char} (less : c < d) (s t : List UInt8) :
    String.utf8EncodeChar c ++ s < String.utf8EncodeChar d ++ t := by
  have below : c.val.toNat < d.val.toNat := less
  have bound : d.val.toNat < 1114112 := by
    have valid := d.valid
    simp only [UInt32.isValidChar, Nat.isValidChar] at valid
    omega
  -- the digits to base 64 as repeated quotients
  have second (n : Nat) : n / 4096 = n / 64 / 64 := (Nat.div_div_eq_div_mul n 64 64).symm
  have third (n : Nat) : n / 262144 = n / 64 / 64 / 64 := by
    rw [Nat.div_div_eq_div_mul, Nat.div_div_eq_div_mul]
  rw [String.utf8EncodeChar, String.utf8EncodeChar]
  generalize c.val.toNat = m at below
  generalize d.val.toNat = n at below bound
  -- one case for each pair of lengths
  split_ifs <;>
    simp only [List.cons_append, List.nil_append, List.cons_lt_cons_iff, UInt8.lt_iff_toNat_lt,
      ← UInt8.toNat_inj, UInt8.toNat_ofNat', second, third] <;>
    omega

theorem utf8EncodeChar_ne_nil (c : Char) : String.utf8EncodeChar c ≠ [] := by
  rw [String.utf8EncodeChar]
  split_ifs <;> exact List.cons_ne_nil _ _

theorem flatMap_utf8EncodeChar_lt {cs ds : List Char} (less : cs < ds) :
    cs.flatMap String.utf8EncodeChar < ds.flatMap String.utf8EncodeChar := by
  induction less with
  | @nil d ds =>
    rw [List.flatMap_nil, List.flatMap_cons]
    obtain ⟨byte, bytes, encoded⟩ := List.exists_cons_of_ne_nil (utf8EncodeChar_ne_nil d)
    rw [encoded]
    exact .nil
  | cons _ ih =>
    rw [List.flatMap_cons, List.flatMap_cons]
    exact List.append_left_lt ih
  | rel less =>
    rw [List.flatMap_cons, List.flatMap_cons]
    exact utf8EncodeChar_append_lt less _ _

/-- Texts stand in the same order as their images under a map that keeps the order. -/
theorem lt_iff_of_keeps {α : Type} [LT α] [Std.Asymm (α := α) (· < ·)] {f : String → List α}
    (keeps : ∀ {a b : String}, a < b → f a < f b) {a b : String} : f a < f b ↔ a < b := by
  refine ⟨fun less => ?_, keeps⟩
  rcases lt_trichotomy a b with before | rfl | behind
  · exact before
  · exact absurd less (List.lt_asymm less)
  · exact absurd less (List.lt_asymm (keeps behind))

/-- Texts stand in the same order by their bytes as by their characters. -/
theorem utf8_lt_utf8_iff {a b : String} : utf8 a < utf8 b ↔ a < b := by
  apply lt_iff_of_keeps
  intro a b less
  rw [utf8_eq, utf8_eq]
  exact flatMap_utf8EncodeChar_lt (String.lt_iff_toList_lt.mp less)

/-! ## The order of code points -/

/-- One list of numbers comes before another: it is a proper beginning of it, or has the lesser number
at the first place where they differ. -/
inductive Precedes : List Nat → List Nat → Prop where
  | shorter (as : List Nat) (b : Nat) (bs : List Nat) : Precedes as (as ++ b :: bs)
  | lesser (common : List Nat) {a b : Nat} (less : a < b) (as bs : List Nat) :
      Precedes (common ++ a :: as) (common ++ b :: bs)

/-- The code points of a text. -/
def codePoints (text : String) : List Nat :=
  text.toList.map Char.toNat

theorem Precedes.cons {as bs : List Nat} (h : Precedes as bs) (a : Nat) :
    Precedes (a :: as) (a :: bs) := by
  cases h with
  | shorter _ b rest => exact .shorter (a :: as) b rest
  | lesser common less as bs => exact .lesser (a :: common) less as bs

theorem precedes_iff_lt {as bs : List Nat} : Precedes as bs ↔ as < bs := by
  constructor
  · intro h
    cases h with
    | shorter _ b rest =>
      induction as with
      | nil => exact .nil
      | cons a as ih => exact .cons ih
    | lesser common less as bs => exact List.append_left_lt (.rel less)
  · intro less
    induction less with
    | @nil b bs => exact .shorter [] b bs
    | @cons a _ _ _ ih => exact ih.cons a
    | @rel a as b bs less => exact .lesser [] less as bs

theorem precedes_codePoints_iff {a b : String} :
    Precedes (codePoints a) (codePoints b) ↔ a < b := by
  rw [precedes_iff_lt]
  apply lt_iff_of_keeps
  intro a b less
  exact List.map_lt (fun _ _ below => below) (String.lt_iff_toList_lt.mp less)

end CallScript.Text
