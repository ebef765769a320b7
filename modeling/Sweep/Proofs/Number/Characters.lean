import Sweep.Number.General
import Sweep.Proofs.Number.Shortest

/-!
# The characters of a number

Whichever way a number is laid out, at its places or with an exponent, it consists of digits, signs,
a point and the letter of the exponent (`IsNumeral`).
-/

set_option autoImplicit false

namespace Sweep

/-- A character of a number. -/
def IsNumeral (c : Char) : Prop := Text.isAsciiDigit c = true ∨ c ∈ ['-', '+', '.', 'e']

theorem not_isNumeral_dollar : ¬ IsNumeral '$' := by
  rintro (h | h)
  · exact absurd h (by decide)
  · exact absurd h (by decide)

theorem isNumeral_zeros {count : Nat} {c : Char} (h : c ∈ List.replicate count '0') : IsNumeral c :=
  .inl (digits_zeros count c h)

theorem isNumeral_digits {n : Nat} {c : Char} (h : c ∈ Text.digits 10 n) :
    IsNumeral c := .inl ((Text.digits_spec n).1 c h)

theorem isNumeral_cons {first c : Char} {rest : List Char} (hf : IsNumeral first)
    (hr : ∀ c ∈ rest, IsNumeral c) (h : c ∈ first :: rest) : IsNumeral c := by
  rcases List.mem_cons.1 h with rfl | h
  · exact hf
  · exact hr c h

theorem isNumeral_exponentText {width : Nat} {exponent : Int} {c : Char}
    (h : c ∈ exponentText width exponent) :
    IsNumeral c := by
  rw [exponentText] at h
  refine isNumeral_cons ?_ (fun c hc => ?_) h
  · split
    · exact .inr (by decide)
    · exact .inr (by decide)
  · rcases List.mem_append.1 hc with hc | hc
    · exact isNumeral_zeros hc
    · exact isNumeral_digits hc

theorem isNumeral_signed {negative : Bool} {body : List Char} (hb : ∀ c ∈ body, IsNumeral c)
    {c : Char} (h : c ∈ if negative then '-' :: body else body) : IsNumeral c := by
  split at h
  · exact isNumeral_cons (.inr (by decide)) hb h
  · exact hb c h

theorem isNumeral_whole {n : Whole} {c : Char} (h : c ∈ n.text.toList) : IsNumeral c := by
  have hdigits : ∀ c ∈ (String.ofList (Nat.toDigits 10 n.value.natAbs)).toList, IsNumeral c := by
    intro c hc
    rw [String.toList_ofList] at hc
    exact isNumeral_digits hc
  rw [Whole.text] at h
  split at h
  · rw [String.toList_append] at h
    exact isNumeral_cons (.inr (by decide)) hdigits h
  · exact hdigits c h

namespace Scientific

variable {s : Scientific} (hs : ∀ c ∈ s.digits, IsNumeral c)
include hs

theorem isNumeral_split {c : Char} :
    (c ∈ s.split.1 → IsNumeral c) ∧ (c ∈ s.split.2 → IsNumeral c) := by
  rw [split]
  split
  · refine ⟨fun h => ?_, fun h => ?_⟩
    · rw [List.mem_singleton.1 h]
      exact .inl rfl
    · rcases List.mem_append.1 h with h | h
      · exact isNumeral_zeros h
      · exact hs c h
  · refine ⟨fun h => ?_, fun h => hs c (List.mem_of_mem_drop h)⟩
    rcases List.mem_append.1 h with h | h
    · exact hs c (List.mem_of_mem_take h)
    · exact isNumeral_zeros h

theorem isNumeral_pointed {front back : List Char} (h : s.split = (front, back)) {c : Char}
    (hc : c ∈ front ++ '.' :: back) : IsNumeral c := by
  have hsplit := @isNumeral_split s hs
  rw [h] at hsplit
  rcases List.mem_append.1 hc with hc | hc
  · exact hsplit.1 hc
  · exact isNumeral_cons (.inr (by decide)) (fun _ hb => hsplit.2 hb) hc

theorem isNumeral_plain {c : Char} (h : c ∈ s.plain) : IsNumeral c := by
  rw [plain] at h
  split at h
  · next front hsplit =>
    have hfront := (@isNumeral_split s hs c).1
    rw [hsplit] at hfront
    rcases List.mem_append.1 h with h | h
    · exact hfront h
    · exact isNumeral_cons (.inr (by decide))
        (fun c hc => isNumeral_zeros (show c ∈ List.replicate 1 '0' from hc)) h
  · next front back _ hsplit => exact isNumeral_pointed hs hsplit h

theorem isNumeral_positional {c : Char} (h : c ∈ s.positional) : IsNumeral c := by
  rw [positional] at h
  split at h
  · next front hsplit => exact isNumeral_pointed hs hsplit (List.mem_append_left _ h)
  · next front back _ hsplit => exact isNumeral_pointed hs hsplit h

theorem isNumeral_withExponent {width : Nat} {c : Char}
    (h : c ∈ s.mantissa ++ 'e' :: exponentText width s.exponent) : IsNumeral c := by
  rcases List.mem_append.1 h with h | h
  · rw [mantissa.eq_def] at h
    split at h
    · cases h
    · next digit hd => exact hs c (hd ▸ h)
    · next digit rest _ hd =>
      rw [hd] at hs
      obtain ⟨hdigit, hrest⟩ := List.forall_mem_cons.1 hs
      exact isNumeral_cons hdigit (fun _ hc => isNumeral_cons (.inr (by decide)) hrest hc) h
  · exact isNumeral_cons (.inr (by decide)) (fun _ h => isNumeral_exponentText h) h

end Scientific

namespace Double

theorem front_shortest (x : Double) (tie : Tie) : FrontDigits (x.shortest tie).digits := by
  cases hx : x.isZero with
  | true =>
    rw [shortest, if_pos hx]
    exact .zero
  | false =>
    obtain ⟨coefficient, grid, hs, -⟩ := shortest_eq hx tie
    rw [hs]
    exact Scientific.ofCoefficient_front coefficient grid

theorem isNumeral_shortest (x : Double) (tie : Tie) : ∀ c ∈ (x.shortest tie).digits, IsNumeral c :=
  fun c h => .inl ((front_shortest x tie).digits c h)

/-- What a placeholder shows of a double. -/
theorem isNumeral_general {x : Double} {c : Char} (h : c ∈ x.general none false) : IsNumeral c := by
  have hdigits : ∀ c ∈ (x.generalDigits none false).digits, IsNumeral c :=
    fun c hc => .inl ((Scientific.trimZeros_front (front_shortest x .upward)).digits c hc)
  refine isNumeral_signed (fun c hc => ?_) h
  rw [generalMagnitude] at hc
  split at hc
  · exact Scientific.isNumeral_withExponent hdigits hc
  · exact Scientific.isNumeral_positional hdigits hc

end Double

end Sweep
