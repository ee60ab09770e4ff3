/-
The order of texts. Texts are compared by their characters; the order of their bytes in UTF-8 is the
same. A character that is encoded with more bytes starts with a larger byte than one that takes
fewer, and among characters of one length the bytes are the digits of the number, so the comparison
is decided inside the first character that differs.
-/
import Mathlib.Data.String.Basic

namespace TypeAtlas.Text

/-- The bytes of a text in UTF-8. -/
def bytes (s : String) : List UInt8 := s.toUTF8.data.toList

theorem bytes_eq (s : String) : bytes s = s.toList.flatMap String.utf8EncodeChar := by
  unfold bytes
  rw [String.toUTF8_eq_toByteArray, ← String.utf8Encode_toList]
  exact List.toList_data_toByteArray

theorem byte_cons_lt_iff {m n : Nat} (hm : m < 256) (hn : n < 256) {x y : List UInt8} :
    UInt8.ofNat m :: x < UInt8.ofNat n :: y ↔ m < n ∨ m = n ∧ x < y := by
  rw [List.cons_lt_cons_iff, UInt8.lt_iff_toNat_lt, ← UInt8.toNat_inj,
    UInt8.toNat_ofNat_of_lt' hm, UInt8.toNat_ofNat_of_lt' hn]

/-- Of two numbers to the base 64 the smaller has the smaller digit where they first differ. -/
theorem digits_lt {a b c d a' b' c' d' : Nat} (hb : b < 64 ∧ b' < 64) (hc : c < 64 ∧ c' < 64)
    (hd : d < 64 ∧ d' < 64)
    (h : 262144 * a + 4096 * b + 64 * c + d < 262144 * a' + 4096 * b' + 64 * c' + d') :
    a < a' ∨ a = a' ∧ (b < b' ∨ b = b' ∧ (c < c' ∨ c = c' ∧ d < d')) := by
  omega

theorem eq_digits {n : Nat} (hn : n < 1114112) :
    n = 262144 * (n / 262144 % 8) + 4096 * (n / 4096 % 64) + 64 * (n / 64 % 64) + n % 64 := by
  omega

/-- The bytes of a smaller character come first, whatever follows. -/
theorem utf8EncodeChar_append_lt {a b : Char} (h : a < b) (x y : List UInt8) :
    String.utf8EncodeChar a ++ x < String.utf8EncodeChar b ++ y := by
  have hlt : a.val.toNat < b.val.toNat := h
  have hb : b.val.toNat < 1114112 := by
    have hvalid := b.valid
    simp only [UInt32.isValidChar, Nat.isValidChar] at hvalid
    omega
  simp only [String.utf8EncodeChar]
  generalize a.val.toNat = v at hlt
  generalize b.val.toNat = w at hlt hb
  have hmod : ∀ m n : Nat, m % 64 < 64 ∧ n % 64 < 64 := fun m n => by omega
  have hdigits := digits_lt (hmod (v / 4096) (w / 4096)) (hmod (v / 64) (w / 64)) (hmod v w)
    (eq_digits (hlt.trans hb) ▸ eq_digits hb ▸ hlt)
  -- one case for each pair of lengths; those with the longer code first are impossible
  split_ifs <;> first
    | omega
    | simp (disch := omega) only [List.cons_append, List.nil_append, byte_cons_lt_iff]
      omega

theorem flatMap_utf8EncodeChar_lt {l l' : List Char} (h : l < l') :
    l.flatMap String.utf8EncodeChar < l'.flatMap String.utf8EncodeChar := by
  induction l generalizing l' with
  | nil =>
    cases l' with
    | nil => exact absurd h (List.lt_irrefl _)
    | cons b l' =>
      rw [List.flatMap_nil, List.flatMap_cons]
      have hne : String.utf8EncodeChar b ≠ [] := by
        simp only [String.utf8EncodeChar]
        split_ifs <;> simp
      obtain ⟨x, xs, hx⟩ := List.exists_cons_of_ne_nil hne
      rw [hx]
      exact List.nil_lt_cons x _
  | cons a l ih =>
    cases l' with
    | nil => exact absurd h (List.not_lt_nil _)
    | cons b l' =>
      rw [List.flatMap_cons, List.flatMap_cons]
      rcases List.cons_lt_cons_iff.1 h with hlt | ⟨rfl, hlt⟩
      · exact utf8EncodeChar_append_lt hlt _ _
      · exact List.append_left_lt (ih hlt)

/-- The order of the bytes is the order of the texts. -/
theorem bytes_lt_iff {s t : String} : bytes s < bytes t ↔ s < t := by
  have hmono : ∀ {s t : String}, s < t → bytes s < bytes t := by
    intro s t h
    rw [bytes_eq, bytes_eq]
    exact flatMap_utf8EncodeChar_lt (String.lt_iff_toList_lt.1 h)
  refine ⟨fun h => ?_, hmono⟩
  rcases lt_trichotomy s t with hlt | rfl | hlt
  · exact hlt
  · exact absurd h (List.lt_irrefl _)
  · exact absurd (List.lt_trans h (hmono hlt)) (List.lt_irrefl _)

theorem bytes_le_iff {s t : String} : bytes s ≤ bytes t ↔ s ≤ t := by
  rw [← not_lt, ← bytes_lt_iff]
  exact Iff.rfl

end TypeAtlas.Text
